import VeloChain.GameEngine.Determinism

/-! Which entities exist and whose players they are, and which actions that lets through.
The roster is all of a world that decides whether an action fails: only an attack can, on an
entity that does not exist, and only a first move makes new entities.
-/

namespace VeloChain

/-- The next id, and for each existing entity the addresses it is linked to. -/
@[ext]
structure Roster where
  next : EntityId
  links : EntityId → Option (Set String)

namespace Roster

/-- The entity exists. -/
def Has (roster : Roster) (entity : EntityId) : Prop := (roster.links entity).isSome

/-- Some entity is linked to the address. -/
def Linked (roster : Roster) (address : String) : Prop :=
  ∃ entity addresses, roster.links entity = some addresses ∧ address ∈ addresses

/-- A new entity for the address. -/
def join (address : String) (roster : Roster) : Roster :=
  { next := roster.next + 1
    links := Function.update roster.links roster.next (some {address}) }

open Classical in
/-- The roster after an action: the first move of an address joins it. -/
noncomputable def after (entry : String × GameAction) (roster : Roster) : Roster :=
  match entry.2 with
  | .move _ _ _ => if roster.Linked entry.1 then roster else roster.join entry.1
  | _ => roster

/-- An attack is admitted on existing entities, every other action always. -/
def AdmitsOne (roster : Roster) : GameAction → Prop
  | .attack target => roster.Has target
  | _ => True

/-- Every action is admitted at its turn. -/
def Admits : List (String × GameAction) → Roster → Prop
  | [], _ => True
  | entry :: rest, roster => roster.AdmitsOne entry.2 ∧ Admits rest (roster.after entry)

theorem Admits.of_append {entries more : List (String × GameAction)} {roster : Roster}
    (admits : roster.Admits (entries ++ more))
    : roster.Admits entries := by
  induction entries generalizing roster with
  | nil => trivial
  | cons entry rest ih => exact ⟨admits.1, ih admits.2⟩

end Roster

namespace EcsWorld

variable {F : Type}

/-- The roster of a world. -/
def roster (world : EcsWorld F) : Roster :=
  { next := world.nextEntityId
    links := fun entity =>
      (world.getComponents entity).map (fun components =>
        { address | components.any (GameWorld.isPlayerOf address) = true }) }

theorem roster_has {world : EcsWorld F} {entity : EntityId}
    : world.roster.Has entity ↔ (world.getComponents entity).isSome := by
  simp only [Roster.Has, roster, Option.isSome_map]

theorem roster_linked {world : EcsWorld F} {address : String}
    : world.roster.Linked address ↔ ∃ entity, world.IsPlayer address entity := by
  simp only [Roster.Linked, roster, isPlayer_iff, Option.map_eq_some_iff]
  constructor
  · rintro ⟨entity, _, ⟨components, found, rfl⟩, linked⟩
    exact ⟨entity, components, found, linked⟩
  · rintro ⟨entity, components, found, linked⟩
    exact ⟨entity, _, ⟨components, found, rfl⟩, linked⟩

/-- Changing components without their links keeps the roster. -/
theorem roster_updateComponents {f : List (Component F) → List (Component F)}
    (keeps : KeepsPlayers f) (entity : EntityId) (world : EcsWorld F)
    : (world.updateComponents entity f).roster = world.roster := by
  refine Roster.ext rfl ?_
  funext other
  simp only [roster, getComponents_updateComponents]
  split
  next =>
    have sameLinks (components : List (Component F))
        : { address | (f components).any (GameWorld.isPlayerOf address) = true }
          = { address | components.any (GameWorld.isPlayerOf address) = true } := by
      simp only [keeps _ components]
    rw [Option.map_map]
    exact congrArg (fun g => Option.map g _) (funext sameLinks)
  next => rfl

end EcsWorld

namespace GameWorld

variable {F : Type} [F32 F]

omit [F32 F] in
/-- The player lookup finds nothing exactly when no entity is linked to the address. -/
theorem findPlayerEntity_isSome_iff {order : EntityOrder F} {address : String}
    {ecs : EcsWorld F}
    : (findPlayerEntity order address ecs).isSome ↔ ecs.roster.Linked address := by
  rw [EcsWorld.roster_linked, findPlayerEntity, List.find?_isSome]
  constructor
  · rintro ⟨entity, _, linked⟩
    exact ⟨entity, linked⟩
  · rintro ⟨entity, linked⟩
    exact ⟨entity, EcsWorld.mem_entitiesWith.mpr (hasComponent_isPlayer linked), linked⟩

theorem roster_spawnPlayer (address : String) (x y z : F) (ecs : EcsWorld F)
    : (spawnPlayer address x y z ecs).roster = ecs.roster.join address := by
  refine Roster.ext rfl ?_
  funext entity
  simp only [EcsWorld.roster, spawnPlayer, EcsWorld.getComponents_spawn, Roster.join,
    Function.update_apply]
  split
  next =>
    simp only [Option.map_some, any_playerComponents, beq_iff_eq, Option.some.injEq]
    ext other
    simp [eq_comm]
  next => rfl

/-- What one action does to the roster, and when it fails. -/
theorem roster_processAction (order : EntityOrder F) (address : String) (action : GameAction)
    (ecs : EcsWorld F)
    : ((processAction order address action ecs).1 = .ok () ↔ ecs.roster.AdmitsOne action)
      ∧ (processAction order address action ecs).2.roster
        = ecs.roster.after (address, action) := by
  cases action with
  | move x y z =>
      have linked := @findPlayerEntity_isSome_iff F order address ecs
      refine ⟨?_, ?_⟩
      · simp only [processAction, Roster.AdmitsOne, iff_true]
        split <;> rfl
      · cases found : findPlayerEntity order address ecs with
        | some entity =>
            have isLinked : ecs.roster.Linked address := linked.mp (by rw [found]; rfl)
            simp only [processAction, found, Roster.after, isLinked, if_true]
            exact EcsWorld.roster_updateComponents (keepsPlayers_movedTo _ _ _) entity ecs
        | none =>
            have unlinked : ¬ ecs.roster.Linked address := by
              rw [← linked, found]
              simp
            simp only [processAction, found, Roster.after, unlinked, if_false]
            exact roster_spawnPlayer address _ _ _ ecs
  | attack target =>
      cases found : ecs.getComponents target with
      | none =>
          simp only [processAction, found, Roster.AdmitsOne, EcsWorld.roster_has,
            Option.isSome_none, reduceCtorEq, Bool.false_eq_true, true_and]
          rfl
      | some components =>
          simp only [processAction, found, Roster.AdmitsOne, EcsWorld.roster_has,
            Option.isSome_some, true_and]
          exact EcsWorld.roster_updateComponents keepsPlayers_damaged target ecs
  | respawn =>
      cases found : findPlayerEntity order address ecs with
      | none =>
          simp only [processAction, found, Roster.AdmitsOne, true_and]
          rfl
      | some entity =>
          simp only [processAction, found, Roster.AdmitsOne, true_and]
          exact EcsWorld.roster_updateComponents keepsPlayers_respawned entity ecs
  | interact target => exact ⟨⟨fun _ => trivial, fun _ => rfl⟩, rfl⟩
  | placeBlock x y z blockType => exact ⟨⟨fun _ => trivial, fun _ => rfl⟩, rfl⟩
  | breakBlock x y z => exact ⟨⟨fun _ => trivial, fun _ => rfl⟩, rfl⟩
  | craft recipe => exact ⟨⟨fun _ => trivial, fun _ => rfl⟩, rfl⟩
  | chat message => exact ⟨⟨fun _ => trivial, fun _ => rfl⟩, rfl⟩

/-- A list of actions succeeds exactly when the roster admits each at its turn. -/
theorem processActions_ok_iff (order : Nat → EntityOrder F)
    (actions : List (String × GameAction)) (ecs : EcsWorld F)
    : (processActions order actions ecs).1 = .ok () ↔ ecs.roster.Admits actions := by
  unfold processActions
  generalize 0 = index
  induction actions generalizing index ecs with
  | nil => simp only [List.zipIdx_nil, Loop.run_nil, Roster.Admits]
  | cons entry rest ih =>
      obtain ⟨succeeds, roster⟩ := roster_processAction (order index) entry.1 entry.2 ecs
      rw [List.zipIdx_cons, Roster.Admits, ← succeeds, ← roster]
      rcases turn : processAction (order index) entry.1 entry.2 ecs with ⟨e | _, next⟩
      · simp only [Loop.run, turn, reduceCtorEq, false_and]
      · simp only [Loop.run, turn, ih, true_and]

/-- A tick succeeds exactly when the roster admits its actions. -/
theorem tick_ok_iff {crypto : Crypto} {codec : EcsCodec F} (order : TickOrder F)
    (actions : List (String × GameAction)) (world : GameWorld F)
    : (∃ root, (tick crypto codec order actions world).1 = .ok root)
      ↔ world.ecs.roster.Admits actions := by
  rw [← processActions_ok_iff order.action]
  unfold tick
  rcases acted : processActions order.action actions world.ecs with ⟨_ | _, ecs⟩ <;>
    simp [acted]

end GameWorld

end VeloChain
