import VeloChain.GameEngine.HealthInvariant
import VeloChain.GameEngine.PlayerQueries

/-! What the world tells about all players and about an area.
A query keeps what the last component of each kind says. Every entity has one role, player or NPC,
and players have a position and health; so the queries tell the same of a player.
-/

namespace VeloChain

variable {F : Type}

/-- An entity as the API returns it. -/
structure EntitySnapshot (F : Type) where
  entityId : EntityId
  entityType : String
  position : F × F × F
  health : Option (F × F × F)
  deriving DecidableEq

/-- What the components of an entity have told a query for an area. -/
structure AreaNotes (F : Type) where
  pos : Option (PositionComponent F)
  entityType : String
  health : Option (F × F × Bool)

/-- Before anything is known about an entity. -/
def AreaNotes.blank : AreaNotes F :=
  { pos := none, entityType := "unknown", health := none }

namespace GameWorld

/-- Get the number of player entities. -/
def playerCount (order : EntityOrder F) (world : GameWorld F) : Nat :=
  (world.ecs.playerEntities order).length

/-- Note what one component tells about its player. -/
def noteOfPlayer (info : PlayerInfo F) : Component F → PlayerInfo F
  | .player player => { info with address := player.address, level := player.level }
  | .position pos => { info with position := (pos.x, pos.y, pos.z) }
  | .health health =>
      { info with
        health := health.current
        maxHealth := health.maximum
        isAlive := !health.isDead }
  | _ => info

/-- Note what one component tells to a query for an area. -/
def noteForArea (notes : AreaNotes F) : Component F → AreaNotes F
  | .position p => { notes with pos := some p }
  | .player player => { notes with entityType := "player:" ++ player.address }
  | .npc npc => { notes with entityType := "npc:" ++ npc.npcType }
  | .health h => { notes with health := some (h.current, h.maximum, h.isDead) }
  | _ => notes

section Queries

variable [F32 F]

/-- The info of a player entity. -/
def playerInfo (entity : EntityId) (components : List (Component F)) : PlayerInfo F :=
  components.foldl noteOfPlayer (blankInfo entity)

/-- Get all player infos, in the order of the walk. -/
def getAllPlayers (order : EntityOrder F) (world : GameWorld F) : List (PlayerInfo F) :=
  (world.ecs.playerEntities order).filterMap (fun entity =>
    (world.ecs.getComponents entity).map (playerInfo entity))

/-- The health of a snapshot: the dead are marked with a one. -/
def healthTriple (health : F × F × Bool) : F × F × F :=
  (health.1, health.2.1, if health.2.2 then 1.0 else 0.0)

/-- A point is in the bounding box; its height does not matter. -/
def inArea (minX minY maxX maxY : F) (point : F × F × F) : Bool :=
  F32.le minX point.1 && F32.le point.1 maxX && F32.le minY point.2.1 && F32.le point.2.1 maxY

/-- The snapshot of an entity, if it has a position in the area. -/
def snapshotIn (minX minY maxX maxY : F) (entity : EntityId) (components : List (Component F))
    : Option (EntitySnapshot F) :=
  let notes := components.foldl noteForArea .blank
  match notes.pos with
  | some p =>
      if inArea minX minY maxX maxY (p.x, p.y, p.z) then
        some
          { entityId := entity
            entityType := notes.entityType
            position := (p.x, p.y, p.z)
            health := notes.health.map healthTriple }
      else none
  | none => none

/-- Get entities within a given area (bounding box query), in the order of the walk. -/
def getEntitiesInArea (order : EntityOrder F) (minX minY maxX maxY : F) (world : GameWorld F)
    : List (EntitySnapshot F) :=
  (order.keys world.ecs.entities).filterMap (fun entity =>
    (world.ecs.getComponents entity).bind (snapshotIn minX minY maxX maxY entity))

end Queries

end GameWorld

-----------------------------------------------------------------------------------------
-- The role of an entity
-----------------------------------------------------------------------------------------

/-- Players and NPCs. -/
def Component.isRole (component : Component F) : Bool :=
  component.isPlayer || component.isNpc

/-- What a component is, as far as the queries tell the kinds apart. -/
def Component.kind (component : Component F) : Bool × Bool × Bool × Bool :=
  (component.isPosition, component.isHealth, component.isPlayer, component.isNpc)

/-- An entity has one role, and a player has a position and health. -/
structure Shaped (components : List (Component F)) : Prop where
  role : components.countP Component.isRole = 1
  position
    : components.any Component.isPlayer = true → components.any Component.isPosition = true
  health : components.any Component.isPlayer = true → components.any Component.isHealth = true

/-- A change of components that keeps what each of them is. -/
def KeepsKinds (f : List (Component F) → List (Component F)) : Prop :=
  ∀ components, (f components).map Component.kind = components.map Component.kind

theorem KeepsKinds.map {g : Component F → Component F}
    (keeps : ∀ component, (g component).kind = component.kind)
    : KeepsKinds (List.map g) := by
  intro components
  rw [List.map_map]
  exact List.map_congr_left (fun component _ => keeps component)

/-- The shape of an entity depends on the kinds of its components only. -/
theorem Shaped.of_kinds {before after : List (Component F)} (shaped : Shaped before)
    (same : after.map Component.kind = before.map Component.kind)
    : Shaped after := by
  have counts : after.countP Component.isRole = before.countP Component.isRole := by
    have count (components : List (Component F))
        : components.countP Component.isRole
          = (components.map Component.kind).countP (fun kind => kind.2.2.1 || kind.2.2.2) := by
      rw [List.countP_map]
      rfl
    rw [count, count, same]
  have any (select : Bool × Bool × Bool × Bool → Bool)
      : after.any (select ∘ Component.kind) = before.any (select ∘ Component.kind) := by
    rw [← List.any_map, ← List.any_map, same]
  have players : after.any Component.isPlayer = before.any Component.isPlayer := any (·.2.2.1)
  refine ⟨counts.trans shaped.role, fun isPlayer => ?_, fun isPlayer => ?_⟩
  · exact (any (·.1)).trans (shaped.position (players ▸ isPlayer))
  · exact (any (·.2.1)).trans (shaped.health (players ▸ isPlayer))

theorem KeepsKinds.shaped {f : List (Component F) → List (Component F)} (keeps : KeepsKinds f)
    (components : List (Component F)) (shaped : Shaped components)
    : Shaped (f components) :=
  shaped.of_kinds (keeps components)

theorem keepsKinds_movedTo (x y z : F) : KeepsKinds (List.map (GameWorld.movedTo x y z)) :=
  .map (fun component => by cases component <;> rfl)

section Kinds

variable [F32 F]

theorem keepsKinds_respawned : KeepsKinds (List.map (Systems.respawned (F := F))) :=
  .map (fun component => by cases component <;> rfl)

theorem keepsKinds_damaged : KeepsKinds (List.map (GameWorld.damaged (F := F))) := by
  refine .map (fun component => ?_)
  cases component with
  | health health =>
      unfold GameWorld.damaged
      simp only
      split <;> rfl
  | _ => rfl

theorem keepsKinds_physicsEntity : KeepsKinds (Systems.physicsEntity (F := F)) := by
  intro components
  unfold Systems.physicsEntity
  split
  next =>
    refine KeepsKinds.map (fun component => ?_) components
    cases component <;> rfl
  next => rfl

theorem keepsKinds_npcAiEntity (tick : UInt64)
    : KeepsKinds (Systems.npcAiEntity (F := F) tick) := by
  intro components
  unfold Systems.npcAiEntity
  split
  next =>
    refine KeepsKinds.map (fun component => ?_) components
    cases component <;> rfl
  next => rfl

theorem keepsKinds_combatEntity : KeepsKinds (Systems.combatEntity (F := F)) := by
  refine .map (fun component => ?_)
  cases component with
  | health health =>
      simp only
      split <;> rfl
  | _ => rfl

theorem keepsKinds_respawnEntity : KeepsKinds (Systems.respawnEntity (F := F)) := by
  intro components
  unfold Systems.respawnEntity
  split
  next => exact keepsKinds_respawned components
  next => rfl

theorem keepsKinds_tickEntity (tick : UInt64)
    : KeepsKinds (Systems.tickEntity (F := F) tick) := by
  have onMatch {matcher : Component F → Bool} {f : List (Component F) → List (Component F)}
      (keeps : KeepsKinds f)
      : KeepsKinds (Systems.onMatch matcher f) := by
    intro components
    unfold Systems.onMatch
    split
    next => exact keeps components
    next => rfl
  intro components
  unfold Systems.tickEntity
  rw [onMatch keepsKinds_respawnEntity, onMatch keepsKinds_combatEntity,
    onMatch (keepsKinds_npcAiEntity tick), onMatch keepsKinds_physicsEntity]

end Kinds

-----------------------------------------------------------------------------------------
-- Ticks keep the shape of every entity
-----------------------------------------------------------------------------------------

namespace GameWorld

variable [F32 F]

theorem shaped_playerComponents (address : String) (x y z : F)
    : Shaped (playerComponents address x y z) :=
  ⟨rfl, fun _ => rfl, fun _ => rfl⟩

theorem shaped_npcComponents (archetype : NpcArchetype F) (npcType : String)
    (position : F × F × F) (waypoints : List (F × F × F))
    : Shaped (npcComponents archetype npcType position waypoints) :=
  ⟨rfl, fun _ => rfl, fun _ => rfl⟩

theorem shaped_initialNpcComponents (archetype : NpcArchetype F) (npcType : String)
    (position : F × F × F) (waypoints : List (F × F × F))
    : Shaped (initialNpcComponents archetype npcType position waypoints) := by
  unfold initialNpcComponents
  split
  next => exact ⟨rfl, fun _ => rfl, fun _ => rfl⟩
  next => exact shaped_npcComponents archetype npcType position waypoints

theorem shaped_processAction {ecs : EcsWorld F} (shaped : ecs.Each Shaped)
    (order : EntityOrder F) (playerAddress : String) (action : GameAction)
    : (processAction order playerAddress action ecs).2.Each Shaped := by
  cases action with
  | move x y z =>
      simp only [processAction]
      split
      next entity _ => exact shaped.updateComponents (keepsKinds_movedTo _ _ _).shaped entity
      next => exact shaped.spawn (shaped_playerComponents _ _ _ _)
  | respawn =>
      simp only [processAction]
      split
      next entity _ => exact shaped.updateComponents keepsKinds_respawned.shaped entity
      next => exact shaped
  | attack target =>
      simp only [processAction]
      split
      next => exact shaped.updateComponents keepsKinds_damaged.shaped target
      next => exact shaped
  | chat _ | interact _ | placeBlock _ _ _ _ | breakBlock _ _ _ | craft _ => exact shaped

variable {crypto : Crypto} {codec : EcsCodec F}

/-- Also a tick that fails keeps the shape of every entity. -/
theorem shaped_tick {world : GameWorld F} (shaped : world.ecs.Each Shaped)
    (order : TickOrder F) (actions : List (String × GameAction))
    : (tick crypto codec order actions world).2.ecs.Each Shaped := by
  have acted : (processActions order.action actions world.ecs).2.Each Shaped :=
    Loop.run_invariant (fun (ecs : EcsWorld F) => ecs.Each Shaped)
      (fun entry _ _ held =>
        shaped_processAction held (order.action entry.2) entry.1.1 entry.1.2) shaped
  unfold tick
  rcases done : processActions order.action actions world.ecs with ⟨_ | _, ecs⟩
  · simpa only [done] using acted
  · rw [done] at acted
    have ran := acted.runTick (keepsKinds_tickEntity (world.currentTick + 1)).shaped order.systems
    simp only [done, finishTick]
    exact ran.spawnNpcs (fun archetype _ => shaped_npcComponents archetype) _

theorem Reachable.shaped {world : GameWorld F} (reachable : Reachable crypto codec world)
    : world.ecs.Each Shaped := by
  induction reachable with
  | new seed =>
      have empty : (EcsWorld.new : EcsWorld F).Each Shaped := by
        intro entity found isFound
        simp [EcsWorld.getComponents, EcsWorld.new] at isFound
      exact empty.spawnNpcs (fun archetype _ => shaped_initialNpcComponents archetype) _
  | tick order actions _ ih => exact shaped_tick ih order actions

end GameWorld

-----------------------------------------------------------------------------------------
-- What the components of one entity tell
-----------------------------------------------------------------------------------------

/-- Of the components of an entity, one is its role. -/
theorem Shaped.exists_role {components : List (Component F)} (shaped : Shaped components)
    : ∃ role ∈ components,
        role.isRole = true
        ∧ ∀ component ∈ components, component.isRole = true → component = role := by
  have one := shaped.role
  rw [List.countP_eq_length_filter, List.length_eq_one_iff] at one
  obtain ⟨role, only⟩ := one
  have isRole {component : Component F}
      : component ∈ components ∧ component.isRole = true ↔ component = role := by
    rw [← List.mem_filter, only, List.mem_singleton]
  obtain ⟨member, holds⟩ := isRole.mpr rfl
  exact ⟨role, member, holds, fun component there its => isRole.mp ⟨there, its⟩⟩

namespace GameWorld

/-- Where all player components have the address, the lookup by it notes what a query for all
players does.
-/
theorem foldl_noteComponent {address : String} {components : List (Component F)}
    (linked : ∀ player, .player player ∈ components → player.address = address)
    (noted : Bool × PlayerInfo F)
    : (components.foldl (noteComponent address) noted).2
      = components.foldl noteOfPlayer noted.2 := by
  induction components generalizing noted with
  | nil => rfl
  | cons component rest ih =>
      rw [List.foldl_cons, List.foldl_cons,
        ih (fun player member => linked player (List.mem_cons_of_mem _ member))]
      congr 1
      cases component with
      | player player =>
          have same := linked player List.mem_cons_self
          simp only [noteComponent, same, beq_self_eq_true, if_true, noteOfPlayer]
      | _ => rfl

/-- A query for all players gives a player the address of its player components. -/
theorem address_foldl {address : String} {components : List (Component F)}
    (linked : ∀ player, .player player ∈ components → player.address = address)
    {info : PlayerInfo F}
    (known : components.any Component.isPlayer = true ∨ info.address = address)
    : (components.foldl noteOfPlayer info).address = address := by
  induction components generalizing info with
  | nil => exact known.resolve_left (by simp)
  | cons component rest ih =>
      refine ih (fun player member => linked player (List.mem_cons_of_mem _ member)) ?_
      cases component with
      | player player => exact .inr (linked player List.mem_cons_self)
      | _ => exact known

/-- What a query for an area has noted is what one for all players has. -/
structure Alike (info : PlayerInfo F) (notes : AreaNotes F) : Prop where
  position : ∀ pos, notes.pos = some pos → info.position = (pos.x, pos.y, pos.z)
  health
    : ∀ health, notes.health = some health →
        health = (info.health, info.maxHealth, !info.isAlive)

theorem Alike.foldl {info : PlayerInfo F} {notes : AreaNotes F} (alike : Alike info notes)
    (components : List (Component F))
    : Alike (components.foldl noteOfPlayer info) (components.foldl noteForArea notes) := by
  induction components generalizing info notes with
  | nil => exact alike
  | cons component rest ih =>
      refine ih ?_
      cases component with
      | position pos =>
          refine ⟨fun pos same => ?_, alike.health⟩
          cases same
          rfl
      | health health =>
          refine ⟨alike.position, fun noted same => ?_⟩
          cases same
          simp [noteOfPlayer]
      | _ => exact ⟨alike.position, alike.health⟩

/-- What one component of a kind makes a fold note, it has noted in the end. -/
theorem foldl_of_any {N : Type} {note : N → Component F → N} {known : N → Prop}
    {matcher : Component F → Bool} (makes : ∀ noted c, matcher c = true → known (note noted c))
    (keeps : ∀ noted c, known noted → known (note noted c)) {components : List (Component F)}
    {noted : N} (start : components.any matcher = true ∨ known noted)
    : known (components.foldl note noted) := by
  induction components generalizing noted with
  | nil => exact start.resolve_left (by simp)
  | cons component rest ih =>
      refine ih ?_
      rw [List.any_cons, Bool.or_eq_true] at start
      rcases start with (here | later) | already
      · exact .inr (makes noted component here)
      · exact .inl later
      · exact .inr (keeps noted component already)

/-- A query for an area notes a position and health where there are some. -/
theorem isSome_foldl_noteForArea (components : List (Component F)) (notes : AreaNotes F)
    : (components.any Component.isPosition = true →
          (components.foldl noteForArea notes).pos.isSome = true)
      ∧ (components.any Component.isHealth = true →
          (components.foldl noteForArea notes).health.isSome = true) := by
  refine ⟨fun some => ?_, fun some => ?_⟩
  · refine @foldl_of_any F _ noteForArea (fun noted => noted.pos.isSome = true) _
      (fun noted c its => ?_) (fun noted c held => ?_) _ _ (.inl some)
    · cases c <;> first | rfl | cases its
    · cases c <;> first | rfl | exact held
  · refine @foldl_of_any F _ noteForArea (fun noted => noted.health.isSome = true) _
      (fun noted c its => ?_) (fun noted c held => ?_) _ _ (.inl some)
    · cases c <;> first | rfl | cases its
    · cases c <;> first | rfl | exact held

/-- The type that an area query gives an entity for its role. -/
def typeOfRole : Component F → String
  | .player player => "player:" ++ player.address
  | .npc npc => "npc:" ++ npc.npcType
  | _ => "unknown"

/-- A query for an area gives an entity the type of its role. -/
theorem entityType_foldl {role : Component F} {components : List (Component F)}
    (only : ∀ component ∈ components, component.isRole = true → component = role)
    {notes : AreaNotes F}
    (known : role ∈ components ∧ role.isRole = true ∨ notes.entityType = typeOfRole role)
    : (components.foldl noteForArea notes).entityType = typeOfRole role := by
  induction components generalizing notes with
  | nil => exact known.resolve_left (by simp)
  | cons component rest ih =>
      refine ih (fun other member => only other (List.mem_cons_of_mem _ member)) ?_
      by_cases its : component.isRole = true
      · have same := only component List.mem_cons_self its
        subst same
        right
        cases component <;> simp_all [noteForArea, typeOfRole, Component.isRole,
          Component.isPlayer, Component.isNpc]
      · rcases known with ⟨member, isRole⟩ | noted
        · refine .inl ⟨(List.mem_cons.mp member).resolve_left ?_, isRole⟩
          rintro rfl
          exact its isRole
        · right
          rw [← noted]
          cases component <;> first | rfl | exact absurd rfl its

theorem entityId_foldl (components : List (Component F)) (info : PlayerInfo F)
    : (components.foldl noteOfPlayer info).entityId = info.entityId := by
  induction components generalizing info with
  | nil => rfl
  | cons component rest ih =>
      rw [List.foldl_cons, ih]
      cases component <;> rfl

variable [F32 F]

/-- The snapshot that an area query gives of a player. -/
def playerSnapshot (info : PlayerInfo F) : EntitySnapshot F :=
  { entityId := info.entityId
    entityType := "player:" ++ info.address
    position := info.position
    health := some (healthTriple (info.health, info.maxHealth, !info.isAlive)) }

omit [F32 F] in
/-- The role of a player is its player component. -/
theorem exists_player_of_shaped {components : List (Component F)} (shaped : Shaped components)
    (isPlayer : components.any Component.isPlayer = true)
    : ∃ player,
        .player player ∈ components
        ∧ ∀ component ∈ components, component.isRole = true → component = .player player := by
  obtain ⟨role, member, -, only⟩ := shaped.exists_role
  obtain ⟨component, there, its⟩ := List.any_eq_true.mp isPlayer
  have same := only component there (by simp [Component.isRole, its])
  subst same
  cases component with
  | player player => exact ⟨player, member, only⟩
  | _ => cases its

/-- The queries tell the same of a player: the lookup finds it by the address that the query for
all players tells, and an area query shows it where that one says it is.
-/
theorem playerInfo_agrees {components : List (Component F)} (shaped : Shaped components)
    (isPlayer : components.any Component.isPlayer = true) (entity : EntityId)
    (minX minY maxX maxY : F)
    : infoOf (playerInfo entity components).address entity components
        = some (playerInfo entity components)
      ∧ (∀ address,
          components.any (isPlayerOf address) = true
          ↔ (playerInfo entity components).address = address)
      ∧ snapshotIn minX minY maxX maxY entity components
        = if inArea minX minY maxX maxY (playerInfo entity components).position then
            some (playerSnapshot (playerInfo entity components))
          else none := by
  obtain ⟨player, member, only⟩ := exists_player_of_shaped shaped isPlayer
  have linked (other : PlayerComponent) (its : .player other ∈ components)
      : other.address = player.address := by
    have same := only _ its rfl
    cases same
    rfl
  have address : (playerInfo entity components).address = player.address :=
    address_foldl linked (.inl isPlayer)
  have found : components.any (isPlayerOf player.address) = true :=
    List.any_eq_true.mpr ⟨_, member, by simp [isPlayerOf]⟩
  rw [address]
  refine ⟨?_, fun other => ⟨fun isLink => ?_, fun same => same ▸ found⟩, ?_⟩
  · have isMatch := isMatch_foldl player.address components
      (false, (blankInfo entity : PlayerInfo F))
    have noted := foldl_noteComponent linked (false, (blankInfo entity : PlayerInfo F))
    rw [found, Bool.or_true] at isMatch
    simp only [infoOf, isMatch, if_true, noted]
    rfl
  · obtain ⟨component, there, its⟩ := List.any_eq_true.mp isLink
    cases component with
    | player own => exact (linked own there).symm.trans (beq_iff_eq.mp its)
    | _ => cases its
  · have alike : Alike (playerInfo entity components) (components.foldl noteForArea .blank) := by
      refine Alike.foldl ⟨fun _ none => ?_, fun _ none => ?_⟩ components
      · cases none
      · cases none
    have known := isSome_foldl_noteForArea components .blank
    have isType := @entityType_foldl F _ _ only .blank (.inl ⟨member, rfl⟩)
    have same : (playerInfo entity components).entityId = entity := entityId_foldl _ _
    obtain ⟨pos, isPos⟩ := Option.isSome_iff_exists.mp (known.1 (shaped.position isPlayer))
    obtain ⟨health, isHealth⟩ := Option.isSome_iff_exists.mp (known.2 (shaped.health isPlayer))
    simp only [snapshotIn, isPos, isType, isHealth, Option.map_some, playerSnapshot, same, address,
      alike.position pos isPos, ← alike.health health isHealth, typeOfRole]

-----------------------------------------------------------------------------------------
-- Queries on a reachable world
-----------------------------------------------------------------------------------------

variable {world : GameWorld F}

theorem mem_getAllPlayers {order : EntityOrder F} {info : PlayerInfo F}
    : info ∈ world.getAllPlayers order
      ↔ ∃ entity components,
          world.ecs.getComponents entity = some components
          ∧ components.any Component.isPlayer = true
          ∧ playerInfo entity components = info := by
  unfold getAllPlayers EcsWorld.playerEntities
  simp only [List.mem_filterMap, EcsWorld.mem_entitiesWith, EcsWorld.hasComponent,
    Option.map_eq_some_iff]
  constructor
  · rintro ⟨entity, isPlayer, components, found, same⟩
    rw [found] at isPlayer
    exact ⟨entity, components, found, isPlayer, same⟩
  · rintro ⟨entity, components, found, isPlayer, same⟩
    exact ⟨entity, by rw [found]; exact isPlayer, components, found, same⟩

/-- Every player entity has its info. -/
theorem entityIds_getAllPlayers (order : EntityOrder F)
    : (world.getAllPlayers order).map PlayerInfo.entityId = world.ecs.playerEntities order := by
  rw [getAllPlayers, List.map_filterMap]
  conv_rhs => rw [← List.filterMap_some (l := world.ecs.playerEntities order)]
  refine List.filterMap_congr (fun entity member => ?_)
  have isPlayer := EcsWorld.mem_entitiesWith.mp member
  unfold EcsWorld.hasComponent at isPlayer
  cases found : world.ecs.getComponents entity with
  | none => simp [found] at isPlayer
  | some components =>
      simp only [Option.map_some]
      exact congrArg some (entityId_foldl components (blankInfo entity))

omit [F32 F] in
theorem any_isPlayer_of_isPlayerOf {address : String} {components : List (Component F)}
    (linked : components.any (isPlayerOf address) = true)
    : components.any Component.isPlayer = true := by
  obtain ⟨component, member, its⟩ := List.any_eq_true.mp linked
  refine List.any_eq_true.mpr ⟨component, member, ?_⟩
  cases component <;> first | rfl | cases its

/-- The lookup by an address finds the player that is listed with it. -/
theorem getPlayerInfo_eq_some_iff (wellformed : world.ecs.Wellformed)
    (shaped : world.ecs.Each Shaped) {order walk : EntityOrder F} {address : String}
    {info : PlayerInfo F}
    : world.getPlayerInfo walk address = some info
      ↔ info ∈ world.getAllPlayers order ∧ info.address = address := by
  rw [getPlayerInfo_eq_bind, mem_getAllPlayers]
  simp only [Option.bind_eq_some_iff, findPlayerEntity_eq_some_iff wellformed]
  constructor
  · rintro ⟨entity, -, components, found, isInfo⟩
    have linked : components.any (isPlayerOf address) = true := by
      rw [← isSome_infoOf address entity components, isInfo]
      rfl
    have isPlayer := any_isPlayer_of_isPlayerOf linked
    obtain ⟨same, links, -⟩ := playerInfo_agrees (shaped entity components found) isPlayer entity
      0.0 0.0 0.0 0.0
    have address := (links _).mp linked
    rw [address, isInfo, Option.some.injEq] at same
    subst same
    exact ⟨⟨entity, components, found, isPlayer, rfl⟩, address⟩
  · rintro ⟨⟨entity, components, found, isPlayer, rfl⟩, rfl⟩
    obtain ⟨same, links, -⟩ := playerInfo_agrees (shaped entity components found) isPlayer entity
      0.0 0.0 0.0 0.0
    exact ⟨entity, EcsWorld.isPlayer_iff.mpr ⟨components, found, (links _).mpr rfl⟩, components,
      found, same⟩

/-- No two listed players have the same address. -/
theorem nodup_addresses_getAllPlayers (wellformed : world.ecs.Wellformed)
    (shaped : world.ecs.Each Shaped) (order : EntityOrder F)
    : ((world.getAllPlayers order).map PlayerInfo.address).Nodup := by
  have lookup {address : String} {info : PlayerInfo F} :=
    @getPlayerInfo_eq_some_iff F _ world wellformed shaped order order address info
  refine List.Nodup.map_on (fun left isLeft right isRight same => ?_)
    (.of_map PlayerInfo.entityId ?_)
  · have found := lookup.mpr ⟨isLeft, same⟩
    rw [lookup.mpr ⟨isRight, rfl⟩] at found
    exact (Option.some.inj found).symm
  · rw [entityIds_getAllPlayers]
    exact world.ecs.nodup_entitiesWith order Component.isPlayer

theorem mem_getEntitiesInArea {order : EntityOrder F} {minX minY maxX maxY : F}
    {snapshot : EntitySnapshot F}
    : snapshot ∈ world.getEntitiesInArea order minX minY maxX maxY
      ↔ ∃ entity components,
          world.ecs.getComponents entity = some components
          ∧ snapshotIn minX minY maxX maxY entity components = some snapshot := by
  simp only [getEntitiesInArea, List.mem_filterMap, order.mem_keys, Option.bind_eq_some_iff]
  constructor
  · rintro ⟨entity, -, components, found, same⟩
    exact ⟨entity, components, found, same⟩
  · rintro ⟨entity, components, found, same⟩
    exact ⟨entity, Finmap.mem_of_lookup_eq_some found, components, found, same⟩

theorem entityId_of_snapshotIn {minX minY maxX maxY : F} {entity : EntityId}
    {components : List (Component F)} {snapshot : EntitySnapshot F}
    (shown : snapshotIn minX minY maxX maxY entity components = some snapshot)
    : snapshot.entityId = entity := by
  unfold snapshotIn at shown
  simp only at shown
  split at shown
  next =>
    split at shown
    next =>
      cases shown
      rfl
    next => cases shown
  next => cases shown

/-- An area query shows no entity twice. -/
theorem nodup_entityIds_getEntitiesInArea (order : EntityOrder F) (minX minY maxX maxY : F)
    : ((world.getEntitiesInArea order minX minY maxX maxY).map EntitySnapshot.entityId).Nodup := by
  rw [getEntitiesInArea, List.map_filterMap]
  refine (order.nodup world.ecs.entities).filterMap (fun left right shown isLeft isRight => ?_)
  have own {entity : EntityId}
      (its
        : shown ∈ ((world.ecs.getComponents entity).bind
            (snapshotIn minX minY maxX maxY entity)).map EntitySnapshot.entityId)
      : shown = entity := by
    obtain ⟨snapshot, isShown, rfl⟩ := Option.map_eq_some_iff.mp its
    obtain ⟨components, -, isSnapshot⟩ := Option.bind_eq_some_iff.mp isShown
    exact entityId_of_snapshotIn isSnapshot
  exact (own isLeft).symm.trans (own isRight)

/-- An area query shows the players that are listed with a position in the area, each as it is
listed.
-/
theorem player_in_area_iff (shaped : world.ecs.Each Shaped) {list count walk : EntityOrder F}
    {minX minY maxX maxY : F} {snapshot : EntitySnapshot F}
    : snapshot ∈ world.getEntitiesInArea walk minX minY maxX maxY
        ∧ snapshot.entityId ∈ world.ecs.playerEntities count
      ↔ ∃ info ∈ world.getAllPlayers list,
          inArea minX minY maxX maxY info.position = true ∧ playerSnapshot info = snapshot := by
  rw [mem_getEntitiesInArea]
  constructor
  · rintro ⟨⟨entity, components, found, shown⟩, isPlayer⟩
    rw [entityId_of_snapshotIn shown] at isPlayer
    replace isPlayer := EcsWorld.mem_entitiesWith.mp isPlayer
    simp only [EcsWorld.hasComponent, found] at isPlayer
    obtain ⟨-, -, same⟩ := playerInfo_agrees (shaped entity components found) isPlayer entity
      minX minY maxX maxY
    rw [shown] at same
    split at same
    next inside =>
      exact ⟨_, mem_getAllPlayers.mpr ⟨entity, components, found, isPlayer, rfl⟩, inside,
        (Option.some.inj same).symm⟩
    next => cases same
  · rintro ⟨info, isListed, inside, rfl⟩
    obtain ⟨entity, components, found, isPlayer, rfl⟩ := mem_getAllPlayers.mp isListed
    obtain ⟨-, -, same⟩ := playerInfo_agrees (shaped entity components found) isPlayer entity
      minX minY maxX maxY
    rw [if_pos inside] at same
    refine ⟨⟨entity, components, found, same⟩, EcsWorld.mem_entitiesWith.mpr ?_⟩
    rw [entityId_of_snapshotIn same]
    simp only [EcsWorld.hasComponent, found, isPlayer]

/-- Whatever else an area query shows is an NPC. -/
theorem npc_of_in_area (shaped : world.ecs.Each Shaped) {order walk : EntityOrder F}
    {minX minY maxX maxY : F} {snapshot : EntitySnapshot F}
    (shown : snapshot ∈ world.getEntitiesInArea walk minX minY maxX maxY)
    (noPlayer : snapshot.entityId ∉ world.ecs.playerEntities order)
    : snapshot.entityId ∈ world.ecs.npcEntities order
      ∧ ∃ npcType, snapshot.entityType = "npc:" ++ npcType := by
  obtain ⟨entity, components, found, isSnapshot⟩ := mem_getEntitiesInArea.mp shown
  have id := entityId_of_snapshotIn isSnapshot
  obtain ⟨role, member, isRole, only⟩ := (shaped entity components found).exists_role
  have isType := @entityType_foldl F _ _ only .blank (.inl ⟨member, isRole⟩)
  have unlinked : ¬ role.isPlayer = true := by
    intro isPlayer
    refine noPlayer (EcsWorld.mem_entitiesWith.mpr ?_)
    simp only [id, EcsWorld.hasComponent, found]
    exact List.any_eq_true.mpr ⟨role, member, isPlayer⟩
  cases role with
  | npc npc =>
      refine ⟨EcsWorld.mem_entitiesWith.mpr ?_, npc.npcType, ?_⟩
      · simp only [id, EcsWorld.hasComponent, found]
        exact List.any_eq_true.mpr ⟨_, member, rfl⟩
      · unfold snapshotIn at isSnapshot
        simp only at isSnapshot
        split at isSnapshot
        next =>
          split at isSnapshot
          next =>
            cases isSnapshot
            exact isType
          next => cases isSnapshot
        next => cases isSnapshot
  | player player => exact absurd rfl unlinked
  | _ => cases isRole

/-- What the queries tell of a world, each on a walk of its own: the player count is the length of
the player list, the lookup by an address finds exactly the player that is listed with it, and an
area shows the listed players whose position is in it, as they are listed, and apart from them
only NPCs, all once.
-/
structure QueriesAgree (world : GameWorld F) (list count lookup area : EntityOrder F)
    : Prop where
  playerCount : (world.getAllPlayers list).length = world.playerCount count
  addresses : ((world.getAllPlayers list).map PlayerInfo.address).Nodup
  lookup
    : ∀ address info,
        world.getPlayerInfo lookup address = some info
        ↔ info ∈ world.getAllPlayers list ∧ info.address = address
  areaIds
    : ∀ minX minY maxX maxY,
        ((world.getEntitiesInArea area minX minY maxX maxY).map EntitySnapshot.entityId).Nodup
  areaPlayers
    : ∀ minX minY maxX maxY snapshot,
        snapshot ∈ world.getEntitiesInArea area minX minY maxX maxY
          ∧ snapshot.entityId ∈ world.ecs.playerEntities count
        ↔ ∃ info ∈ world.getAllPlayers list,
            inArea minX minY maxX maxY info.position = true ∧ playerSnapshot info = snapshot
  areaNpcs
    : ∀ minX minY maxX maxY snapshot,
        snapshot ∈ world.getEntitiesInArea area minX minY maxX maxY →
        snapshot.entityId ∉ world.ecs.playerEntities count →
        snapshot.entityId ∈ world.ecs.npcEntities count
        ∧ ∃ npcType, snapshot.entityType = "npc:" ++ npcType

variable {crypto : Crypto} {codec : EcsCodec F}

/-- In every reachable world the queries agree. -/
theorem queries_agree (reachable : Reachable crypto codec world)
    (list count lookup area : EntityOrder F)
    : QueriesAgree world list count lookup area := by
  have wellformed := reachable.wellformed
  have shaped := reachable.shaped
  have players (entity : EntityId)
      : entity ∈ world.ecs.playerEntities list ↔ entity ∈ world.ecs.playerEntities count :=
    EcsWorld.mem_entitiesWith.trans EcsWorld.mem_entitiesWith.symm
  exact
    { playerCount :=
        calc (world.getAllPlayers list).length
          _ = (world.ecs.playerEntities list).length := by
              rw [← entityIds_getAllPlayers, List.length_map]
          _ = world.playerCount count :=
              ((List.perm_ext_iff_of_nodup
                (world.ecs.nodup_entitiesWith list Component.isPlayer)
                (world.ecs.nodup_entitiesWith count Component.isPlayer)).mpr players).length_eq
      addresses := nodup_addresses_getAllPlayers wellformed shaped list
      lookup := fun _ _ => getPlayerInfo_eq_some_iff wellformed shaped
      areaIds := nodup_entityIds_getEntitiesInArea area
      areaPlayers := fun _ _ _ _ _ => player_in_area_iff shaped
      areaNpcs := fun _ _ _ _ _ => npc_of_in_area shaped }

/-- Two players have arrived. -/
theorem queries_agree_arrival
    : QueriesAgree arrival ascendingOrder ascendingOrder.reversed ascendingOrder.reversed
        ascendingOrder :=
  @queries_agree Milli _ arrival .disclosing milliCodec
    (.tick (.uniform ascendingOrder) _ (.new 5)) ascendingOrder ascendingOrder.reversed
    ascendingOrder.reversed ascendingOrder

end GameWorld

end VeloChain
