import VeloChain.GameEngine.World

/-! Player actions that find nothing to change.
An action writes the components of one entity in place, or spawns a player; whether that is a
change can be read off the entity before.
-/

namespace VeloChain

variable {F : Type} [F32 F]

namespace GameWorld

/-- Every position among the components is the given one. -/
def StandsAt (x y z : F) (components : List (Component F)) : Prop :=
  ∀ position, .position position ∈ components → position = { x, y, z }

/-- The base damage of an attack does not show in any health among the components. -/
def Unharmed (components : List (Component F)) : Prop :=
  ∀ health, .health health ∈ components →
    if F32.le (health.current - (10.0 : F)) 0.0 then health.current = 0.0 ∧ health.isDead = true
    else health.current - (10.0 : F) = health.current

/-- Full health and the position at the spawn point. -/
def FreshlySpawned (components : List (Component F)) : Prop :=
  StandsAt 0.0 0.0 64.0 components
  ∧ ∀ health, .health health ∈ components →
      health.current = health.maximum ∧ health.isDead = false

/-- The action of a player finds nothing to change. A move of an unknown address never does
so, since it spawns a player.
-/
def Inert (order : EntityOrder F) (playerAddress : String) (ecs : EcsWorld F)
    : GameAction → Prop
  | .move x y z =>
      ∃ entity,
        findPlayerEntity order playerAddress ecs = some entity
        ∧ ∀ components, ecs.getComponents entity = some components
            → StandsAt (milliunits x) (milliunits y) (milliunits z) components
  | .respawn =>
      ∀ entity, findPlayerEntity order playerAddress ecs = some entity →
        ∀ components, ecs.getComponents entity = some components → FreshlySpawned components
  | .attack target =>
      ∀ components, ecs.getComponents target = some components → Unharmed components
  | .chat _ | .interact _ | .placeBlock _ _ _ _ | .breakBlock _ _ _ | .craft _ => True

omit [F32 F] in
theorem map_eq_self_iff {f : Component F → Component F} {components : List (Component F)}
    : components.map f = components ↔ ∀ component ∈ components, f component = component := by
  have same := @List.map_inj_left _ _ components f id
  rwa [List.map_id] at same

omit [F32 F] in
theorem map_movedTo_eq_self_iff {x y z : F} {components : List (Component F)}
    : components.map (movedTo x y z) = components ↔ StandsAt x y z components := by
  rw [map_eq_self_iff]
  constructor
  · intro kept position member
    have same := kept _ member
    simp only [movedTo, Component.position.injEq] at same
    exact same.symm
  · intro stands component member
    cases component with
    | position position => rw [stands position member, movedTo]
    | _ => rfl

theorem map_damaged_eq_self_iff {components : List (Component F)}
    : components.map damaged = components ↔ Unharmed components := by
  have decided (health : HealthComponent F)
      : damaged (.health health) = .health health
        ↔ if F32.le (health.current - (10.0 : F)) 0.0 then
            health.current = 0.0 ∧ health.isDead = true
          else health.current - (10.0 : F) = health.current := by
    cases health
    unfold damaged
    simp only
    split
    next => simp only [Component.health.injEq, HealthComponent.mk.injEq, true_and, eq_comm]
    next => simp only [Component.health.injEq, HealthComponent.mk.injEq, and_true]
  rw [map_eq_self_iff]
  constructor
  · intro kept health member
    exact (decided health).mp (kept _ member)
  · intro unharmed component member
    cases component with
    | health health => exact (decided health).mpr (unharmed health member)
    | _ => rfl

theorem map_respawned_eq_self_iff {components : List (Component F)}
    : components.map Systems.respawned = components ↔ FreshlySpawned components := by
  rw [map_eq_self_iff]
  constructor
  · intro kept
    constructor
    · intro position member
      have same := kept _ member
      simp only [Systems.respawned, Component.position.injEq] at same
      exact same.symm
    · intro health member
      have same := kept _ member
      cases health
      simp only [Systems.respawned, Component.health.injEq, HealthComponent.mk.injEq,
        true_and] at same
      exact ⟨same.1.symm, same.2.symm⟩
  · rintro ⟨stands, healthy⟩ component member
    cases component with
    | position position => rw [stands position member, Systems.respawned]
    | health health =>
        obtain ⟨full, alive⟩ := healthy health member
        cases health
        simp only at full alive
        simp only [Systems.respawned, full, alive]
    | _ => rfl

omit [F32 F] in
theorem spawn_ne_self (components : List (Component F)) (ecs : EcsWorld F)
    : ecs.spawn components ≠ ecs := by
  intro same
  exact absurd (congrArg EcsWorld.nextEntityId same) (Nat.succ_ne_self _)

/-- An action changes nothing exactly when it is inert. -/
theorem processAction_eq_self_iff (order : EntityOrder F) (playerAddress : String)
    (action : GameAction) (ecs : EcsWorld F)
    : (processAction order playerAddress action ecs).2 = ecs
      ↔ Inert order playerAddress ecs action := by
  cases action with
  | move x y z =>
      cases found : findPlayerEntity order playerAddress ecs with
      | none =>
          simp only [processAction, found, Inert, reduceCtorEq, false_and, exists_false,
            iff_false]
          exact spawn_ne_self _ ecs
      | some entity =>
          simp only [processAction, found, Inert, Option.some.injEq, exists_eq_left',
            EcsWorld.updateComponents_eq_self_iff, map_movedTo_eq_self_iff]
  | respawn =>
      cases found : findPlayerEntity order playerAddress ecs with
      | none => simp only [processAction, found, Inert, reduceCtorEq, false_imp_iff, implies_true]
      | some entity =>
          simp only [processAction, found, Inert, Option.some.injEq, forall_eq',
            EcsWorld.updateComponents_eq_self_iff, map_respawned_eq_self_iff]
  | attack target =>
      cases found : ecs.getComponents target with
      | none => simp only [processAction, found, Inert, reduceCtorEq, false_imp_iff, implies_true]
      | some components =>
          simp only [processAction, found, Inert, EcsWorld.updateComponents_eq_self_iff,
            map_damaged_eq_self_iff]
  | interact target => exact iff_of_true rfl trivial
  | placeBlock x y z blockType => exact iff_of_true rfl trivial
  | breakBlock x y z => exact iff_of_true rfl trivial
  | craft recipe => exact iff_of_true rfl trivial
  | chat message => exact iff_of_true rfl trivial

end GameWorld

end VeloChain
