import VeloChain.GameEngine.World

/-! At most one entity per player address, in every reachable world.
Actions and systems change components in place without touching the player links; a player
is spawned only when the lookup finds none. So the lookup does not depend on its order. For an
address without a player, a move makes one where it should have brought one, a respawn and a chat
message do nothing, and an attack needs no player at all.
-/

namespace VeloChain

namespace EcsWorld

variable {F : Type}

/-- The entity is a player of the address. -/
def IsPlayer (world : EcsWorld F) (address : String) (entity : EntityId) : Prop :=
  world.hasComponent (GameWorld.isPlayerOf address) entity = true

/-- Ids are below the next one, and an address has at most one player entity. -/
structure Wellformed (world : EcsWorld F) : Prop where
  fresh : ∀ entity ∈ world.entities, entity < world.nextEntityId
  unique
    : ∀ address left right, world.IsPlayer address left → world.IsPlayer address right
        → left = right

/-- The same entities, linked to the same addresses. -/
structure SamePlayers (before after : EcsWorld F) : Prop where
  nextEntityId : after.nextEntityId = before.nextEntityId
  entities : ∀ entity, entity ∈ after.entities ↔ entity ∈ before.entities
  players : ∀ address entity, after.IsPlayer address entity ↔ before.IsPlayer address entity

/-- A change of components that keeps their player links. -/
def KeepsPlayers (f : List (Component F) → List (Component F)) : Prop :=
  ∀ address components,
    (f components).any (GameWorld.isPlayerOf address)
      = components.any (GameWorld.isPlayerOf address)

theorem KeepsPlayers.map {g : Component F → Component F}
    (keeps : ∀ address component,
      GameWorld.isPlayerOf address (g component) = GameWorld.isPlayerOf address component)
    : KeepsPlayers (List.map g) := by
  intro address components
  rw [List.any_map]
  congr 1
  funext component
  exact keeps address component

theorem SamePlayers.trans {before middle after : EcsWorld F}
    (first : SamePlayers before middle) (second : SamePlayers middle after)
    : SamePlayers before after :=
  ⟨second.nextEntityId.trans first.nextEntityId,
    fun entity => (second.entities entity).trans (first.entities entity),
    fun address entity => (second.players address entity).trans (first.players address entity)⟩

theorem SamePlayers.wellformed {before after : EcsWorld F} (same : SamePlayers before after)
    (wellformed : before.Wellformed)
    : after.Wellformed := by
  constructor
  · intro entity member
    rw [same.nextEntityId]
    exact wellformed.fresh entity ((same.entities entity).mp member)
  · intro address left right isLeft isRight
    exact wellformed.unique address left right ((same.players address left).mp isLeft)
      ((same.players address right).mp isRight)

theorem wellformed_new : (EcsWorld.new : EcsWorld F).Wellformed := by
  constructor
  · intro entity member
    exact absurd member Finmap.notMem_empty
  · intro address left right isLeft _
    simp [IsPlayer, hasComponent, getComponents, EcsWorld.new] at isLeft

theorem mem_entities_iff {world : EcsWorld F} {entity : EntityId}
    : entity ∈ world.entities ↔ (world.getComponents entity).isSome :=
  Finmap.lookup_isSome.symm

theorem isPlayer_iff {world : EcsWorld F} {address : String} {entity : EntityId}
    : world.IsPlayer address entity
      ↔ ∃ components,
          world.getComponents entity = some components
          ∧ components.any (GameWorld.isPlayerOf address) = true := by
  unfold IsPlayer hasComponent
  cases world.getComponents entity with
  | none => simp
  | some components => simp

/-- Changing the components of every entity by functions that keep the links keeps them. -/
theorem samePlayers_of_map {before after : EcsWorld F}
    (next : after.nextEntityId = before.nextEntityId)
    (f : EntityId → List (Component F) → List (Component F))
    (keeps : ∀ entity, KeepsPlayers (f entity))
    (mapped
      : ∀ entity, after.getComponents entity = (before.getComponents entity).map (f entity))
    : SamePlayers before after := by
  refine ⟨next, ?_, ?_⟩
  · intro entity
    rw [mem_entities_iff, mem_entities_iff, mapped, Option.isSome_map]
  · intro address entity
    rw [isPlayer_iff, isPlayer_iff, mapped]
    cases before.getComponents entity with
    | none => simp
    | some components =>
        simp only [Option.map_some, Option.some.injEq, exists_eq_left', keeps entity address]

theorem samePlayers_updateComponents {f : List (Component F) → List (Component F)}
    (keeps : KeepsPlayers f) (entity : EntityId) (world : EcsWorld F)
    : SamePlayers world (world.updateComponents entity f) := by
  refine samePlayers_of_map rfl (fun other => if other = entity then f else id) ?_ ?_
  · intro other
    split
    next => exact keeps
    next => exact fun _ _ => rfl
  · intro other
    rw [getComponents_updateComponents]
    split <;> simp

/-- A new entity gets a fresh id; it keeps the world well-formed when its address, if it has
one, is not linked yet.
-/
theorem Wellformed.spawn {world : EcsWorld F} (wellformed : world.Wellformed)
    {components : List (Component F)}
    (unlinked
      : ∀ address, components.any (GameWorld.isPlayerOf address) = true
          → ∀ entity, ¬ world.IsPlayer address entity)
    : (world.spawn components).Wellformed := by
  have players (address : String) (entity : EntityId)
      : (world.spawn components).IsPlayer address entity
        → world.IsPlayer address entity
          ∨ entity = world.nextEntityId
            ∧ components.any (GameWorld.isPlayerOf address) = true := by
    rw [isPlayer_iff, isPlayer_iff, getComponents_spawn]
    rintro ⟨found, lookup, linked⟩
    split at lookup
    next same =>
      obtain rfl := Option.some.inj lookup
      exact Or.inr ⟨same, linked⟩
    next => exact Or.inl ⟨found, lookup, linked⟩
  constructor
  · intro entity member
    rw [mem_entities_iff, getComponents_spawn] at member
    change entity < world.nextEntityId + 1
    split at member
    next same => exact same ▸ Nat.lt_succ_self _
    next => exact Nat.lt_succ_of_lt (wellformed.fresh entity (mem_entities_iff.mpr member))
  · intro address left right isLeft isRight
    cases players address left isLeft with
    | inl oldLeft =>
        cases players address right isRight with
        | inl oldRight => exact wellformed.unique address left right oldLeft oldRight
        | inr newRight => exact absurd oldLeft (unlinked address newRight.2 left)
    | inr newLeft =>
        cases players address right isRight with
        | inl oldRight => exact absurd oldRight (unlinked address newLeft.2 right)
        | inr newRight => exact newLeft.1.trans newRight.1.symm

end EcsWorld

namespace GameWorld

variable {F : Type} [F32 F]

omit [F32 F] in
/-- A link to an address makes an entity a player entity. -/
theorem hasComponent_isPlayer {ecs : EcsWorld F} {address : String} {entity : EntityId}
    (linked : ecs.IsPlayer address entity)
    : ecs.hasComponent Component.isPlayer entity = true := by
  obtain ⟨components, found, any⟩ := EcsWorld.isPlayer_iff.mp linked
  obtain ⟨component, member, isLink⟩ := List.any_eq_true.mp any
  simp only [EcsWorld.hasComponent, found]
  refine List.any_eq_true.mpr ⟨component, member, ?_⟩
  cases component <;> simp_all [isPlayerOf, Component.isPlayer]

omit [F32 F] in
/-- The player lookup finds exactly the entity linked to the address. -/
theorem findPlayerEntity_eq_some_iff {ecs : EcsWorld F} (wellformed : ecs.Wellformed)
    {order : EntityOrder F} {address : String} {entity : EntityId}
    : findPlayerEntity order address ecs = some entity ↔ ecs.IsPlayer address entity := by
  constructor
  · intro found
    exact List.find?_some found
  · intro linked
    have listed : entity ∈ ecs.playerEntities order :=
      EcsWorld.mem_entitiesWith.mpr (hasComponent_isPlayer linked)
    cases found : findPlayerEntity order address ecs with
    | none =>
        have unlinked := List.find?_eq_none.mp found entity listed
        exact absurd linked unlinked
    | some other =>
        have same := wellformed.unique address other entity (List.find?_some found) linked
        rw [same]

omit [F32 F] in
/-- The player lookup does not depend on the order of its walk. -/
theorem findPlayerEntity_congr {ecs : EcsWorld F} (wellformed : ecs.Wellformed)
    (order order' : EntityOrder F) (address : String)
    : findPlayerEntity order address ecs = findPlayerEntity order' address ecs := by
  apply Option.ext
  intro entity
  rw [findPlayerEntity_eq_some_iff wellformed, findPlayerEntity_eq_some_iff wellformed]

omit [F32 F] in
theorem findPlayerEntity_eq_none_iff {ecs : EcsWorld F} (wellformed : ecs.Wellformed)
    {order : EntityOrder F} {address : String}
    : findPlayerEntity order address ecs = none ↔ ∀ entity, ¬ ecs.IsPlayer address entity := by
  rw [Option.eq_none_iff_forall_ne_some]
  simp only [ne_eq, findPlayerEntity_eq_some_iff wellformed]

omit [F32 F] in
theorem keepsPlayers_movedTo (x y z : F)
    : EcsWorld.KeepsPlayers (List.map (movedTo x y z)) := by
  apply EcsWorld.KeepsPlayers.map
  intro address component
  cases component <;> rfl

theorem keepsPlayers_respawned
    : EcsWorld.KeepsPlayers (List.map (Systems.respawned (F := F))) := by
  apply EcsWorld.KeepsPlayers.map
  intro address component
  cases component <;> rfl

theorem keepsPlayers_damaged : EcsWorld.KeepsPlayers (List.map (damaged (F := F))) := by
  apply EcsWorld.KeepsPlayers.map
  intro address component
  cases component with
  | health health =>
      unfold damaged
      simp only
      split <;> rfl
  | _ => rfl

/-- A new player is linked to its own address only. -/
theorem any_playerComponents (address other : String) (x y z : F)
    : (playerComponents address x y z).any (isPlayerOf other) = (address == other) := by
  change ((address == other) || false) = _
  exact Bool.or_false _

/-- Every action keeps the world well-formed, also one that fails. -/
theorem wellformed_processAction {ecs : EcsWorld F} (wellformed : ecs.Wellformed)
    (order : EntityOrder F) (address : String) (action : GameAction)
    : (processAction order address action ecs).2.Wellformed := by
  cases action with
  | move x y z =>
      cases found : findPlayerEntity order address ecs with
      | some entity =>
          simp only [processAction, found]
          exact (EcsWorld.samePlayers_updateComponents (keepsPlayers_movedTo _ _ _) entity
            ecs).wellformed wellformed
      | none =>
          simp only [processAction, found]
          apply wellformed.spawn
          intro other linked
          rw [any_playerComponents, beq_iff_eq] at linked
          subst linked
          exact (findPlayerEntity_eq_none_iff wellformed).mp found
  | attack target =>
      cases found : ecs.getComponents target with
      | none => simpa only [processAction, found] using wellformed
      | some components =>
          simp only [processAction, found]
          exact (EcsWorld.samePlayers_updateComponents keepsPlayers_damaged target
            ecs).wellformed wellformed
  | respawn =>
      cases found : findPlayerEntity order address ecs with
      | none => simpa only [processAction, found] using wellformed
      | some entity =>
          simp only [processAction, found]
          exact (EcsWorld.samePlayers_updateComponents keepsPlayers_respawned entity
            ecs).wellformed wellformed
  | interact target => exact wellformed
  | placeBlock x y z blockType => exact wellformed
  | breakBlock x y z => exact wellformed
  | craft recipe => exact wellformed
  | chat message => exact wellformed

/-- An action has the same result in every order of its player lookup. -/
theorem processAction_congr {ecs : EcsWorld F} (wellformed : ecs.Wellformed)
    (order order' : EntityOrder F) (address : String) (action : GameAction)
    : processAction order address action ecs = processAction order' address action ecs := by
  unfold processAction
  rw [findPlayerEntity_congr wellformed order order' address]

-----------------------------------------------------------------------------------------
-- Addresses without a player
-----------------------------------------------------------------------------------------

/-- The components of the player that an action of an unknown address makes. -/
def spawnedBy (entry : String × GameAction) : Option (List (Component F)) :=
  match entry.2 with
  | .move x y z => some (playerComponents entry.1 (milliunits x) (milliunits y) (milliunits z))
  | _ => none

/-- How often an entity is attacked. -/
def attacksOn (entity : EntityId) (actions : List (String × GameAction)) : Nat :=
  actions.countP (fun entry => entry.2 = .attack entity)

/-- The components of an entity after actions of unknown addresses: it existed before or is one
of the new players, and each attack on it does its damage.
-/
def afterActions (actions : List (String × GameAction)) (ecs : EcsWorld F) (entity : EntityId)
    : Option (List (Component F)) :=
  (if entity < ecs.nextEntityId then ecs.getComponents entity
    else (actions.filterMap spawnedBy)[entity - ecs.nextEntityId]?).map
      (List.map damaged)^[attacksOn entity actions]

/-- No two of the actions have the same address, and none of these has a player. -/
structure Strangers (actions : List (String × GameAction)) (ecs : EcsWorld F) : Prop where
  distinct : (actions.map Prod.fst).Nodup
  unknown : ∀ entry ∈ actions, ∀ entity, ¬ ecs.IsPlayer entry.1 entity

/-- What holds after some actions of unknown addresses have succeeded. -/
structure After (actions : List (String × GameAction)) (start world : EcsWorld F) : Prop where
  wellformed : world.Wellformed
  next : world.nextEntityId = start.nextEntityId + (actions.filterMap (@spawnedBy F _)).length
  components : ∀ entity, world.getComponents entity = afterActions actions start entity
  attacked : ∀ entity, attacksOn entity actions ≠ 0 → entity < world.nextEntityId
  unknown
    : ∀ address, address ∉ actions.map Prod.fst → (∀ entity, ¬ start.IsPlayer address entity) →
        ∀ entity, ¬ world.IsPlayer address entity

theorem attacksOn_append (entity : EntityId) (actions : List (String × GameAction))
    (entry : String × GameAction)
    : attacksOn entity (actions ++ [entry])
      = attacksOn entity actions + if entry.2 = .attack entity then 1 else 0 := by
  rw [attacksOn, List.countP_append, List.countP_singleton]
  simp only [attacksOn, decide_eq_true_eq]

theorem getElem?_concat_sub {α : Type} (items : List α) (item : α) {first place : Nat}
    (late : first ≤ place)
    : (items ++ [item])[place - first]?
      = if place = first + items.length then some item else items[place - first]? := by
  rw [List.getElem?_append]
  by_cases inside : place - first < items.length
  · rw [if_pos inside, if_neg (by omega)]
  · rw [if_neg inside, List.getElem?_singleton, List.getElem?_eq_none (Nat.le_of_not_lt inside)]
    by_cases last : place = first + items.length
    · rw [if_pos last, if_pos (by omega)]
    · rw [if_neg last, if_neg (by omega)]

/-- Before the first action. -/
theorem After.start {ecs : EcsWorld F} (wellformed : ecs.Wellformed) : After [] ecs ecs := by
  refine ⟨wellformed, rfl, fun entity => ?_, fun entity attacked => absurd rfl attacked,
    fun _ _ unknown => unknown⟩
  simp only [afterActions, attacksOn, List.countP_nil, Function.iterate_zero, Option.map_id_fun,
    id_eq, List.filterMap_nil, List.getElem?_nil]
  split
  next => rfl
  next late =>
    cases found : ecs.getComponents entity with
    | none => rfl
    | some components =>
        exact absurd (wellformed.fresh entity (EcsWorld.mem_entities_iff.mpr (by simp [found])))
          late

/-- An action that makes no player and attacks nobody is not to be seen. -/
theorem After.idle {actions : List (String × GameAction)} {start world : EcsWorld F}
    (after : After actions start world) {entry : String × GameAction}
    (noPlayer : spawnedBy (F := F) entry = none)
    (peaceful : ∀ entity, entry.2 ≠ .attack entity)
    : After (actions ++ [entry]) start world := by
  have spawned : (actions ++ [entry]).filterMap (@spawnedBy F _) = actions.filterMap spawnedBy := by
    simp [List.filterMap_append, noPlayer]
  have attacks (entity : EntityId)
      : attacksOn entity (actions ++ [entry]) = attacksOn entity actions := by
    rw [attacksOn_append, if_neg (peaceful entity), Nat.add_zero]
  refine ⟨after.wellformed, ?_, fun entity => ?_, fun entity attacked => ?_,
    fun address other unknown => after.unknown address ?_ unknown⟩
  · rw [spawned]
    exact after.next
  · rw [after.components, afterActions, afterActions, spawned, attacks]
  · rw [attacks] at attacked
    exact after.attacked entity attacked
  · rw [List.map_append] at other
    exact fun member => other (List.mem_append_left _ member)

/-- A move of an address without a player makes one. -/
theorem After.moves {actions : List (String × GameAction)} {start world : EcsWorld F}
    (after : After actions start world) (address : String) (x y z : Int64)
    (unknown : ∀ entity, ¬ world.IsPlayer address entity)
    : After (actions ++ [(address, .move x y z)]) start
        (spawnPlayer address (milliunits x) (milliunits y) (milliunits z) world) := by
  set player := playerComponents (F := F) address (milliunits x) (milliunits y) (milliunits z)
    with isPlayer
  have spawned
      : (actions ++ [(address, GameAction.move x y z)]).filterMap (@spawnedBy F _)
        = actions.filterMap spawnedBy ++ [player] := by
    rw [List.filterMap_append]
    rfl
  have attacks (entity : EntityId)
      : attacksOn entity (actions ++ [(address, .move x y z)]) = attacksOn entity actions := by
    rw [attacksOn_append, if_neg nofun, Nat.add_zero]
  refine ⟨?_, ?_, fun entity => ?_, fun entity attacked => ?_,
    fun other differs unlinked entity linked => ?_⟩
  · refine after.wellformed.spawn (fun other linked => ?_)
    rw [any_playerComponents, beq_iff_eq] at linked
    subst linked
    exact unknown
  · rw [spawned, List.length_append, List.length_singleton, ← Nat.add_assoc, ← after.next]
    rfl
  · rw [spawnPlayer, EcsWorld.getComponents_spawn, afterActions, spawned, attacks]
    have components := after.components entity
    unfold afterActions at components
    by_cases old : entity < start.nextEntityId
    · have other : entity ≠ world.nextEntityId :=
        Nat.ne_of_lt (Nat.lt_of_lt_of_le old (after.next ▸ Nat.le_add_right _ _))
      rw [if_pos old] at components
      rw [if_neg other, if_pos old, components]
    · rw [if_neg old] at components
      rw [if_neg old, getElem?_concat_sub _ _ (Nat.le_of_not_lt old), ← after.next]
      by_cases last : entity = world.nextEntityId
      · have quiet : attacksOn entity actions = 0 := by
          by_contra attacked
          exact Nat.ne_of_lt (after.attacked entity attacked) last
        rw [if_pos last, if_pos last, quiet]
        rfl
      · rw [if_neg last, if_neg last, components]
  · rw [attacks] at attacked
    exact Nat.lt_succ_of_lt (after.attacked entity attacked)
  · obtain ⟨components, found, any⟩ := EcsWorld.isPlayer_iff.mp linked
    rw [spawnPlayer, EcsWorld.getComponents_spawn] at found
    split at found
    · cases found
      rw [any_playerComponents, beq_iff_eq] at any
      exact differs (by simp [any])
    · refine after.unknown other (fun member => differs ?_) unlinked entity
        (EcsWorld.isPlayer_iff.mpr ⟨components, found, any⟩)
      rw [List.map_append]
      exact List.mem_append_left _ member

/-- An attack damages an entity that is there. -/
theorem After.attacks {actions : List (String × GameAction)} {start world : EcsWorld F}
    (after : After actions start world) (address : String) {target : EntityId}
    (there : (world.getComponents target).isSome)
    : After (actions ++ [(address, .attack target)]) start
        (world.updateComponents target (List.map damaged)) := by
  have spawned
      : (actions ++ [(address, GameAction.attack target)]).filterMap (@spawnedBy F _)
        = actions.filterMap spawnedBy := by
    rw [List.filterMap_append]
    exact List.append_nil _
  have same := EcsWorld.samePlayers_updateComponents (keepsPlayers_damaged (F := F)) target world
  refine ⟨same.wellformed after.wellformed, ?_, fun entity => ?_, fun entity attacked => ?_,
    fun other differs unlinked entity linked => ?_⟩
  · rw [spawned]
    exact after.next
  · rw [EcsWorld.getComponents_updateComponents, after.components, afterActions, afterActions,
      spawned, attacksOn_append]
    by_cases isTarget : entity = target
    · have hit : (address, GameAction.attack target).2 = .attack entity := by rw [isTarget]
      rw [if_pos isTarget, if_pos hit, Function.iterate_succ', Option.map_map]
    · have other : ¬ GameAction.attack target = .attack entity := by
        intro equal
        exact isTarget (by cases equal; rfl)
      rw [if_neg isTarget, if_neg other, Nat.add_zero]
  · by_cases isTarget : entity = target
    · rw [isTarget]
      exact after.wellformed.fresh target (EcsWorld.mem_entities_iff.mpr there)
    · have other : ¬ GameAction.attack target = .attack entity := by
        intro equal
        exact isTarget (by cases equal; rfl)
      rw [attacksOn_append, if_neg other, Nat.add_zero] at attacked
      exact after.attacked entity attacked
  · refine after.unknown other (fun member => differs ?_) unlinked entity
      ((same.players other entity).mp linked)
    rw [List.map_append]
    exact List.mem_append_left _ member

/-- One more action, of an address that has no player: it succeeds, or it attacks an entity that
is not there.
-/
theorem After.step {actions : List (String × GameAction)} {start world : EcsWorld F}
    (after : After actions start world) (order : EntityOrder F) {address : String}
    (fresh : address ∉ actions.map Prod.fst)
    (unknown : ∀ entity, ¬ start.IsPlayer address entity) (action : GameAction)
    : (∃ next,
        processAction order address action world = (.ok (), next)
        ∧ After (actions ++ [(address, action)]) start next)
      ∨ ∃ target,
          action = .attack target
          ∧ world.getComponents target = none
          ∧ processAction order address action world
            = (.error (.entityNotFound target), world) := by
  have unlinked := after.unknown address fresh unknown
  have noPlayer : findPlayerEntity order address world = none :=
    (findPlayerEntity_eq_none_iff after.wellformed).mpr unlinked
  cases action with
  | move x y z =>
      exact .inl ⟨_, by simp only [processAction, noPlayer], after.moves address x y z unlinked⟩
  | attack target =>
      cases found : world.getComponents target with
      | none => exact .inr ⟨target, rfl, found, by simp only [processAction, found]⟩
      | some components =>
          exact .inl ⟨_, by simp only [processAction, found],
            after.attacks address (by rw [found]; rfl)⟩
  | respawn => exact .inl ⟨_, by simp only [processAction, noPlayer], after.idle rfl (by simp)⟩
  | interact => exact .inl ⟨_, rfl, after.idle rfl (by simp)⟩
  | placeBlock => exact .inl ⟨_, rfl, after.idle rfl (by simp)⟩
  | breakBlock => exact .inl ⟨_, rfl, after.idle rfl (by simp)⟩
  | craft => exact .inl ⟨_, rfl, after.idle rfl (by simp)⟩
  | chat => exact .inl ⟨_, rfl, after.idle rfl (by simp)⟩

/-- The actions that are done when a run of them ends, by induction on the actions: all, or those
before the first attack on an entity that is not there.
-/
theorem After.run {actions : List (String × GameAction)} {start : EcsWorld F}
    (wellformed : start.Wellformed) (strangers : Strangers actions start)
    (order : Nat → EntityOrder F)
    : (∃ after, processActions order actions start = (.ok (), after) ∧ After actions start after)
      ∨ ∃ done address target rest after,
          actions = done ++ (address, .attack target) :: rest
          ∧ processActions order actions start = (.error (.entityNotFound target), after)
          ∧ After done start after
          ∧ after.getComponents target = none := by
  induction actions using List.reverseRecOn with
  | nil => exact .inl ⟨start, rfl, .start wellformed⟩
  | append_singleton actions entry ih =>
      have distinct := strangers.distinct
      rw [List.map_append, List.nodup_append] at distinct
      have unknown := strangers.unknown
      unfold processActions
      rw [List.zipIdx_append]
      rcases ih ⟨distinct.1, fun entry member => unknown entry (List.mem_append_left _ member)⟩
        with ⟨world, runs, after⟩ | ⟨done, address, target, rest, world, same, runs, after, gone⟩
      · have fresh : entry.1 ∉ actions.map Prod.fst := fun member =>
          distinct.2.2 entry.1 member entry.1 (by simp) rfl
        rw [Loop.run_append_ok runs, List.zipIdx_singleton]
        rcases after.step (order (0 + actions.length)) fresh (unknown entry (by simp)) entry.2
          with ⟨next, acts, done⟩ | ⟨target, attacks, gone, acts⟩
        · exact .inl ⟨next, by simp only [Loop.run, acts], done⟩
        · exact .inr ⟨actions, entry.1, target, [], world, by rw [← attacks],
            by simp only [Loop.run, acts], after, gone⟩
      · exact .inr ⟨done, address, target, rest ++ [entry], world, by simp [same],
          Loop.run_append_error runs, after, gone⟩

end GameWorld

end VeloChain
