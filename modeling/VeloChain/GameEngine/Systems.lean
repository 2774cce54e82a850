import VeloChain.GameEngine.Ecs

/-! Game systems that run each tick, in a fixed order.
A system is a loop over the entities with one kind of component, changing each in place; its
result does not depend on the order of the loop.
-/

namespace VeloChain

variable {F : Type} [F32 F]

namespace Systems

/-- The last component of a list that `select` finds. -/
def lastComponent {α : Type} (select : Component F → Option α)
    (components : List (Component F)) : Option α :=
  components.foldl (fun found component => (select component).or found) none

def positionOf : Component F → Option (PositionComponent F)
  | .position position => some position
  | _ => none

def physicsOf : Component F → Option (PhysicsComponent F)
  | .physics physics => some physics
  | _ => none

def npcOf : Component F → Option (NpcComponent F)
  | .npc npc => some npc
  | _ => none

/-- Velocity, gravity, ground collision and friction of one body in one tick. -/
def movedBody (pos : PositionComponent F) (phys : PhysicsComponent F)
    : PositionComponent F × PhysicsComponent F :=
  let pos : PositionComponent F :=
    { x := pos.x + phys.velocityX, y := pos.y + phys.velocityY, z := pos.z + phys.velocityZ }
  let phys :=
    if !phys.isGrounded then
      { phys with velocityZ := phys.velocityZ - (9.81 : F) * (0.016 : F) }
    else phys
  let (pos, phys) :=
    if F32.le pos.z 0.0 then
      ({ pos with z := 0.0 }, { phys with velocityZ := 0.0, isGrounded := true })
    else (pos, phys)
  (pos,
    { phys with
      velocityX := phys.velocityX * (0.9 : F)
      velocityY := phys.velocityY * (0.9 : F) })

/-- Move one entity by its velocity; position and body are written to every component. -/
def physicsEntity (components : List (Component F)) : List (Component F) :=
  match lastComponent positionOf components, lastComponent physicsOf components with
  | some pos, some phys =>
      let (pos, phys) := movedBody pos phys
      components.map (fun component =>
        match component with
        | .position _ => .position pos
        | .physics _ => .physics phys
        | other => other)
  | _, _ => components

/-- Where the behavior of an NPC puts it: a patrol circles around its home. -/
def behaviorPosition (tick : UInt64) (npc : NpcComponent F) (pos : PositionComponent F)
    : PositionComponent F :=
  match npc.behavior with
  | .patrol =>
      let angle := F32.ofInt (F := F) tick.toNat * (0.05 : F)
      let radius : F := 5.0
      { pos with
        x := npc.homePosition.x + F32.cos angle * radius
        y := npc.homePosition.y + F32.sin angle * radius }
  | _ => pos

def npcAiEntity (tick : UInt64) (components : List (Component F)) : List (Component F) :=
  match lastComponent npcOf components, lastComponent positionOf components with
  | some npc, some pos =>
      components.map (fun component =>
        match component with
        | .position _ => .position (behaviorPosition tick npc pos)
        | other => other)
  | _, _ => components

/-- Entities whose health is used up are dead. -/
def combatEntity (components : List (Component F)) : List (Component F) :=
  components.map (fun component =>
    match component with
    | .health health =>
        if F32.le health.current 0.0 && !health.isDead then
          .health { health with isDead := true, current := 0.0 }
        else .health health
    | other => other)

/-- Full health at the spawn position. -/
def respawned : Component F → Component F
  | .health health => .health { health with current := health.maximum, isDead := false }
  | .position _ => .position { x := 0.0, y := 0.0, z := 64.0 }
  | other => other

def isDead : Component F → Bool
  | .health health => health.isDead
  | _ => false

/-- Dead players respawn. -/
def respawnEntity (components : List (Component F)) : List (Component F) :=
  if components.any isDead then components.map respawned else components

/-- A system: change every entity that has a matching component. -/
def runSystem (order : EntityOrder F) (matcher : Component F → Bool)
    (f : List (Component F) → List (Component F)) (world : EcsWorld F) : EcsWorld F :=
  { world with entities := FinMap.modifyAll (world.entitiesWith order matcher) f world.entities }

/-- Physics system: apply velocity, gravity, collision. -/
def physicsSystem (order : EntityOrder F) (world : EcsWorld F) : EcsWorld F :=
  runSystem order Component.isPhysics physicsEntity world

/-- NPC AI system: update NPC behaviors. -/
def npcAiSystem (order : EntityOrder F) (tick : UInt64) (world : EcsWorld F) : EcsWorld F :=
  runSystem order Component.isNpc (npcAiEntity tick) world

/-- Combat system: process damage and kills. -/
def combatSystem (order : EntityOrder F) (world : EcsWorld F) : EcsWorld F :=
  runSystem order Component.isHealth combatEntity world

/-- Respawn system: handle dead players. -/
def respawnSystem (order : EntityOrder F) (world : EcsWorld F) : EcsWorld F :=
  runSystem order Component.isPlayer respawnEntity world

/-- The orders in which the systems of one tick walk over the entities. -/
structure SystemOrder (F : Type) where
  physics : EntityOrder F
  npcAi : EntityOrder F
  combat : EntityOrder F
  respawn : EntityOrder F

/-- Run all game systems for one tick. -/
def runTick (order : SystemOrder F) (tick : UInt64) (world : EcsWorld F) : EcsWorld F :=
  respawnSystem order.respawn
    (combatSystem order.combat
      (npcAiSystem order.npcAi tick (physicsSystem order.physics world)))

omit [F32 F] in
/-- A system changes each matching entity once, whatever the order of the walk. -/
theorem getComponents_runSystem (order : EntityOrder F) (matcher : Component F → Bool)
    (f : List (Component F) → List (Component F)) (world : EcsWorld F) (entity : EntityId)
    : (runSystem order matcher f world).getComponents entity
      = (world.getComponents entity).map (fun components =>
          if components.any matcher then f components else components) := by
  have once := FinMap.lookup_modifyAll (world.nodup_entitiesWith order matcher) f
    world.entities entity
  unfold runSystem EcsWorld.getComponents
  rw [once]
  cases found : world.entities.lookup entity with
  | none => simp
  | some components =>
      have matching
          : entity ∈ world.entitiesWith order matcher ↔ components.any matcher = true := by
        rw [EcsWorld.mem_entitiesWith, EcsWorld.hasComponent, EcsWorld.getComponents, found]
      simp only [matching, Option.map_some]
      split <;> rfl

omit [F32 F] in
/-- The result of a system does not depend on the order of its walk. -/
theorem runSystem_congr (order order' : EntityOrder F) (matcher : Component F → Bool)
    (f : List (Component F) → List (Component F)) (world : EcsWorld F)
    : runSystem order matcher f world = runSystem order' matcher f world := by
  refine EcsWorld.ext rfl (Finmap.ext_lookup (fun entity => ?_))
  exact (getComponents_runSystem order matcher f world entity).trans
    (getComponents_runSystem order' matcher f world entity).symm

/-- The systems of a tick give the same world in every order of their walks. -/
theorem runTick_congr (order order' : SystemOrder F) (tick : UInt64) (world : EcsWorld F)
    : runTick order tick world = runTick order' tick world := by
  unfold runTick physicsSystem npcAiSystem combatSystem respawnSystem
  rw [runSystem_congr order.physics order'.physics, runSystem_congr order.npcAi order'.npcAi,
    runSystem_congr order.combat order'.combat, runSystem_congr order.respawn order'.respawn]

end Systems

end VeloChain
