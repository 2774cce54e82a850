import VeloChain.GameEngine.Determinism
import VeloChain.GameEngine.StateHash

/-! A game world restored from its serialized state.
Only the entities are serialized. A restored world begins with tick zero and with spawn points
that have spawned nothing, so its first tick that succeeds spawns every NPC once more.
-/

namespace VeloChain

variable {F : Type} [F32 F]

namespace SpawnManager

/-- Every spawn point spawns a known archetype. -/
def Known (manager : SpawnManager F) : Prop :=
  ∀ point ∈ manager.spawnPoints, (manager.getArchetype point.archetype).isSome

/-- Every spawn point is still to spawn its first NPC. -/
structure Unspawned (manager : SpawnManager F) : Prop where
  length : manager.spawnPoints.length = (@spawnConfigs F _).length
  ready
    : ∀ point ∈ manager.spawnPoints,
        point.currentCount < point.maxCount ∧ point.cooldownRemaining = 0
  known : ∀ point ∈ manager.spawnPoints, (manager.getArchetype point.archetype).isSome

/-- Some spawn point has all its NPCs. -/
structure Settled (manager : SpawnManager F) : Prop where
  length : manager.spawnPoints.length = (@spawnConfigs F _).length
  full : ∃ point ∈ manager.spawnPoints, point.currentCount = point.maxCount

theorem unspawned_generateSpawnPoints (keccak256 : Bytes → B256) (seed : UInt64)
    : (SpawnManager.new.generateSpawnPoints keccak256 seed : SpawnManager F).Unspawned := by
  have each (config : String × F × F × UInt32 × F) (mem : config ∈ spawnConfigs)
      : 0 < config.2.2.2.1 ∧ (@SpawnManager.new F _ |>.getArchetype config.1).isSome := by
    simp only [spawnConfigs, List.mem_cons, List.not_mem_nil, or_false] at mem
    rcases mem with rfl | rfl | rfl | rfl | rfl | rfl | rfl | rfl | rfl | rfl
      <;> exact ⟨by dsimp only; decide, rfl⟩
  refine ⟨by simp [generateSpawnPoints, new], ?_, ?_⟩
  · intro point mem
    simp only [generateSpawnPoints, new, List.nil_append, List.mem_mapIdx] at mem
    obtain ⟨index, bound, rfl⟩ := mem
    exact ⟨(each _ (List.getElem_mem bound)).1, rfl⟩
  · intro point mem
    simp only [generateSpawnPoints, new, List.nil_append, List.mem_mapIdx] at mem
    obtain ⟨index, bound, rfl⟩ := mem
    exact (each _ (List.getElem_mem bound)).2

variable {manager : SpawnManager F}

omit [F32 F] in
theorem archetype_tickSpawnPoint (point : SpawnPoint F)
    : (tickSpawnPoint point).2.archetype = point.archetype := by
  unfold tickSpawnPoint
  split
  next => split <;> rfl
  next => rfl

omit [F32 F] in
theorem Known.tickSpawns (known : manager.Known) : manager.tickSpawns.2.Known := by
  intro point member
  obtain ⟨before, found, rfl⟩ := List.mem_map.mp member
  rw [archetype_tickSpawnPoint]
  exact known before found

omit [F32 F] in
theorem Known.wanted (known : manager.Known)
    : ∀ wanted ∈ manager.tickSpawns.1,
        (manager.tickSpawns.2.getArchetype wanted.1).isSome := by
  intro wanted member
  obtain ⟨point, found, rfl⟩ := List.mem_map.mp member
  exact known point (List.mem_filter.mp found).1

/-- The first tick spawns an NPC at every spawn point. -/
theorem Unspawned.length_wanted (unspawned : manager.Unspawned)
    : manager.tickSpawns.1.length = (@spawnConfigs F _).length := by
  have all : manager.spawnPoints.filter (fun point => (tickSpawnPoint point).1)
      = manager.spawnPoints := by
    apply List.filter_eq_self.mpr
    intro point mem
    obtain ⟨room, cooled⟩ := unspawned.ready point mem
    simp [tickSpawnPoint, room, cooled]
  rw [tickSpawns, List.length_map, all, unspawned.length]

/-- A full spawn point spawns nothing. -/
theorem Settled.length_wanted (settled : manager.Settled)
    : manager.tickSpawns.1.length < (@spawnConfigs F _).length := by
  obtain ⟨point, mem, full⟩ := settled.full
  rw [tickSpawns, List.length_map, ← settled.length]
  refine List.length_filter_lt_length_iff_exists.mpr ⟨point, mem, ?_⟩
  simp [tickSpawnPoint, full, UInt32.lt_irrefl]

/-- A full spawn point stays full. -/
theorem Settled.tickSpawns (settled : manager.Settled) : manager.tickSpawns.2.Settled := by
  refine ⟨by simp [SpawnManager.tickSpawns, settled.length], ?_⟩
  obtain ⟨point, mem, full⟩ := settled.full
  refine ⟨(tickSpawnPoint point).2, List.mem_map_of_mem mem, ?_⟩
  simp [tickSpawnPoint, full, UInt32.lt_irrefl]

theorem Unspawned.not_settled (unspawned : manager.Unspawned) : ¬ manager.Settled := by
  intro settled
  obtain ⟨point, mem, full⟩ := settled.full
  exact absurd (full ▸ (unspawned.ready point mem).1) (UInt32.lt_irrefl _)

/-- In a new world the merchant, of whom there is at most one, has been spawned. -/
theorem settled_tickSpawns_generateSpawnPoints (keccak256 : Bytes → B256) (seed : UInt64)
    : (SpawnManager.new.generateSpawnPoints keccak256 seed : SpawnManager F).tickSpawns.2.Settled
    := by
  have initial := @unspawned_generateSpawnPoints F _ keccak256 seed
  refine ⟨by rw [SpawnManager.tickSpawns, List.length_map, initial.length], ?_⟩
  refine ⟨_, List.mem_map_of_mem (List.mem_mapIdx.mpr ⟨0, by simp [spawnConfigs], rfl⟩), ?_⟩
  rfl

end SpawnManager

namespace GameWorld

section SpawnNpcs

variable
  {build : NpcArchetype F → String → F × F × F → List (F × F × F) → List (Component F)}
  {manager : SpawnManager F}

omit [F32 F] in
theorem nextEntityId_spawnNpcs_le (spawns : List (String × (F × F × F) × List (F × F × F)))
    (ecs : EcsWorld F)
    : (spawnNpcs build manager spawns ecs).nextEntityId ≤ ecs.nextEntityId + spawns.length := by
  induction spawns generalizing ecs with
  | nil => exact Nat.le_refl _
  | cons wanted rest ih =>
      have later := ih (spawnNpc build manager ecs wanted)
      have first : (spawnNpc build manager ecs wanted).nextEntityId ≤ ecs.nextEntityId + 1 := by
        unfold spawnNpc
        split
        next => exact Nat.le_refl _
        next => exact Nat.le_succ _
      calc (spawnNpcs build manager rest (spawnNpc build manager ecs wanted)).nextEntityId
        _ ≤ (spawnNpc build manager ecs wanted).nextEntityId + rest.length := later
        _ ≤ ecs.nextEntityId + 1 + rest.length := Nat.add_le_add_right first _
        _ = ecs.nextEntityId + (wanted :: rest).length := Nat.succ_add_eq_add_succ _ _

omit [F32 F] in
/-- NPCs of known archetypes take one id each, by induction on the spawns. -/
theorem nextEntityId_spawnNpcs {spawns : List (String × (F × F × F) × List (F × F × F))}
    (known : ∀ wanted ∈ spawns, (manager.getArchetype wanted.1).isSome) (ecs : EcsWorld F)
    : (spawnNpcs build manager spawns ecs).nextEntityId = ecs.nextEntityId + spawns.length := by
  induction spawns generalizing ecs with
  | nil => rfl
  | cons wanted rest ih =>
      obtain ⟨archetype, found⟩ := Option.isSome_iff_exists.mp (known _ List.mem_cons_self)
      have later := ih (fun w mem => known w (List.mem_cons_of_mem _ mem))
        (spawnNpc build manager ecs wanted)
      have first : (spawnNpc build manager ecs wanted).nextEntityId = ecs.nextEntityId + 1 := by
        simp only [spawnNpc, found]
        rfl
      calc (spawnNpcs build manager rest (spawnNpc build manager ecs wanted)).nextEntityId
        _ = (spawnNpc build manager ecs wanted).nextEntityId + rest.length := later
        _ = ecs.nextEntityId + 1 + rest.length := congrArg (· + rest.length) first
        _ = ecs.nextEntityId + (wanted :: rest).length := Nat.succ_add_eq_add_succ _ _

end SpawnNpcs

variable {crypto : Crypto} {codec : EcsCodec F}

theorem Reachable.settled {world : GameWorld F} (reachable : Reachable crypto codec world)
    : world.spawnManager.Settled := by
  induction reachable with
  | new seed => exact SpawnManager.settled_tickSpawns_generateSpawnPoints _ seed
  | @tick world order actions _ ih =>
      unfold GameWorld.tick
      rcases acted : processActions order.action actions world.ecs with ⟨_ | _, ecs⟩
      · simpa only [acted] using ih
      · simpa only [acted, finishTick] using ih.tickSpawns

/-- A tick of a settled world spawns fewer NPCs than there are spawn points. -/
theorem nextEntityId_finishTick_lt {world : GameWorld F} (settled : world.spawnManager.Settled)
    (order : TickOrder F) (ecs : EcsWorld F)
    : (finishTick crypto codec order ecs world).2.ecs.nextEntityId
      < ecs.nextEntityId + (@SpawnManager.spawnConfigs F _).length :=
  calc (finishTick crypto codec order ecs world).2.ecs.nextEntityId
    _ ≤ (Systems.runTick order.systems world.currentTick ecs).nextEntityId
          + world.spawnManager.tickSpawns.1.length := nextEntityId_spawnNpcs_le _ _
    _ = ecs.nextEntityId + world.spawnManager.tickSpawns.1.length :=
          congrArg (· + _) (Systems.samePlayers_runTick _ _ _).nextEntityId
    _ < ecs.nextEntityId + (@SpawnManager.spawnConfigs F _).length :=
          Nat.add_lt_add_left settled.length_wanted _

/-- The first tick of unspawned points spawns one NPC for each. -/
theorem nextEntityId_finishTick_eq {world : GameWorld F}
    (unspawned : world.spawnManager.Unspawned) (order : TickOrder F) (ecs : EcsWorld F)
    : (finishTick crypto codec order ecs world).2.ecs.nextEntityId
      = ecs.nextEntityId + (@SpawnManager.spawnConfigs F _).length :=
  calc (finishTick crypto codec order ecs world).2.ecs.nextEntityId
    _ = (Systems.runTick order.systems world.currentTick ecs).nextEntityId
          + world.spawnManager.tickSpawns.1.length :=
          nextEntityId_spawnNpcs (SpawnManager.Known.wanted unspawned.known) _
    _ = ecs.nextEntityId + (@SpawnManager.spawnConfigs F _).length := by
          rw [(Systems.samePlayers_runTick _ _ _).nextEntityId, unspawned.length_wanted]

/-- Two worlds with the same entities, of which the right one has all its first spawns still
to come.
-/
structure SpawnsAhead (left right : GameWorld F) : Prop where
  ecs : left.ecs = right.ecs
  wellformed : left.ecs.Wellformed
  settled : left.spawnManager.Settled
  unspawned : right.spawnManager.Unspawned

/-- A tick that fails, fails on both worlds and keeps them so; one that succeeds gives the
right world more entities.
-/
theorem SpawnsAhead.tick {left right : GameWorld F} (ahead : SpawnsAhead left right)
    (order order' : TickOrder F) (actions : List (String × GameAction))
    : (∃ e,
        (GameWorld.tick crypto codec order actions left).1 = .error e
        ∧ (GameWorld.tick crypto codec order' actions right).1 = .error e
        ∧ SpawnsAhead (GameWorld.tick crypto codec order actions left).2
            (GameWorld.tick crypto codec order' actions right).2)
      ∨ (∃ root,
        (GameWorld.tick crypto codec order actions left).1 = .ok root
        ∧ (GameWorld.tick crypto codec order actions left).2.ecs
          ≠ (GameWorld.tick crypto codec order' actions right).2.ecs) := by
  have acted := processActions_congr order.action order'.action actions ahead.wellformed
  have kept := wellformed_processActions order.action actions ahead.wellformed
  unfold GameWorld.tick
  simp only [← ahead.ecs, ← acted]
  rcases done : processActions order.action actions left.ecs with ⟨e | _, ecs⟩
  · rw [done] at kept
    exact Or.inl ⟨e, rfl, rfl, rfl, kept, ahead.settled, ahead.unspawned⟩
  · refine Or.inr ⟨_, rfl, ?_⟩
    intro same
    have fewer := @nextEntityId_finishTick_lt F _ crypto codec
      { left with currentTick := left.currentTick + 1 } ahead.settled order ecs
    have all := @nextEntityId_finishTick_eq F _ crypto codec
      { right with ecs := left.ecs, currentTick := right.currentTick + 1 } ahead.unspawned
      order' ecs
    exact Nat.ne_of_lt (Nat.lt_of_lt_of_eq fewer all.symm) (congrArg EcsWorld.nextEntityId same)

/-- Stopping a world and going on from its serialized state with the same actions leads to the
same results and, as far as `agrees` tells, to the same state at every later tick.
-/
def RestartTransparent (crypto : Crypto) (codec : EcsCodec F)
    (agrees : GameWorld F → GameWorld F → Prop) (stopped : GameWorld F) (walk : EntityOrder F)
    (later : List (List (String × GameAction) × TickOrder F × TickOrder F))
    : Prop :=
  ∃ restored,
    fromState crypto.keccak256 codec (stopped.serializeState codec walk) stopped.seed
      = .ok restored
    ∧ List.Forall₂ (fun onLeft onRight => onLeft.1 = onRight.1 ∧ agrees onLeft.2 onRight.2)
        (trace crypto codec (later.map (fun t => (t.1, t.2.1))) stopped)
        (trace crypto codec (later.map (fun t => (t.1, t.2.2))) restored)

/-- Reading back what was serialized gives the entities, with spawn points that have spawned
nothing.
-/
theorem fromState_serializeState {stopped : GameWorld F}
    (reachable : Reachable crypto codec stopped) {walk : EntityOrder F}
    (reads : codec.decode (stopped.serializeState codec walk) = .ok stopped.ecs)
    : ∃ restored,
        fromState crypto.keccak256 codec (stopped.serializeState codec walk) stopped.seed
          = .ok restored
        ∧ SpawnsAhead stopped restored := by
  simp only [fromState, reads]
  exact ⟨_, rfl, rfl, reachable.wellformed, reachable.settled,
    SpawnManager.unspawned_generateSpawnPoints _ _⟩

/-- Such worlds have the same entities through a run exactly as long as its ticks fail, by
induction on the ticks.
-/
theorem SpawnsAhead.trace_iff {left right : GameWorld F} (ahead : SpawnsAhead left right)
    (ticks : List (List (String × GameAction) × TickOrder F × TickOrder F))
    : List.Forall₂ (fun onLeft onRight => onLeft.1 = onRight.1 ∧ onLeft.2.ecs = onRight.2.ecs)
        (trace crypto codec (ticks.map (fun t => (t.1, t.2.1))) left)
        (trace crypto codec (ticks.map (fun t => (t.1, t.2.2))) right)
      ↔ ∀ entry ∈ trace crypto codec (ticks.map (fun t => (t.1, t.2.1))) left,
          entry.1 ≠ .ok () := by
  induction ticks generalizing left right with
  | nil => simp [trace]
  | cons t rest ih =>
      obtain ⟨actions, order, order'⟩ := t
      simp only [List.map_cons, trace, List.forall₂_cons, List.forall_mem_cons]
      obtain ⟨e, fails, fails', next⟩ | ⟨root, succeeds, differ⟩ :=
        @SpawnsAhead.tick F _ crypto codec left right ahead order order' actions
      · simp only [fails, fails', Except.map, next.ecs, and_self, true_and, ih next, ne_eq,
          reduceCtorEq, not_false_eq_true]
      · simp only [succeeds, differ, Except.map, and_false, false_and, ne_eq,
          not_true_eq_false]

/-- A restart goes unnoticed only until a tick follows: the state differs after the first one,
and the entities differ after the first one that succeeds.
-/
theorem restartTransparent_iff {stopped : GameWorld F}
    (reachable : Reachable crypto codec stopped) {walk : EntityOrder F}
    (reads : codec.decode (stopped.serializeState codec walk) = .ok stopped.ecs)
    (later : List (List (String × GameAction) × TickOrder F × TickOrder F))
    : (RestartTransparent crypto codec SameState stopped walk later ↔ later = [])
      ∧ (RestartTransparent crypto codec (fun left right => left.ecs = right.ecs) stopped walk
            later
          ↔ ∀ entry ∈ trace crypto codec (later.map (fun t => (t.1, t.2.1))) stopped,
              entry.1 ≠ .ok ()) := by
  obtain ⟨restored, read, ahead⟩ := fromState_serializeState reachable reads
  constructor
  · constructor
    · intro transparent
      obtain ⟨_, same, run⟩ := transparent
      obtain rfl := Except.ok.inj (read.symm.trans same)
      cases later with
      | nil => rfl
      | cons t rest =>
          obtain ⟨actions, order, order'⟩ := t
          cases run with
          | cons onTick _ =>
              obtain ⟨_, _, _, next⟩ | ⟨_, _, differ⟩ :=
                @SpawnsAhead.tick F _ crypto codec stopped restored ahead order order' actions
              · exact absurd (onTick.2.spawnManager ▸ next.settled) next.unspawned.not_settled
              · exact absurd onTick.2.ecs differ
    · intro none
      subst none
      exact ⟨restored, read, .nil⟩
  · rw [← ahead.trace_iff later]
    constructor
    · intro transparent
      obtain ⟨_, same, run⟩ := transparent
      obtain rfl := Except.ok.inj (read.symm.trans same)
      exact run
    · intro run
      exact ⟨restored, read, run⟩

section StoppedWorld

/-- A new world after one tick without actions. -/
def stoppedWorld : GameWorld Milli :=
  (tick .disclosing milliCodec (.uniform ascendingOrder) [] (new hashFromSlice 5)).2

/-- A format that reads back this world. -/
def restoringCodec : EcsCodec Milli := { milliCodec with decode := fun _ => .ok stoppedWorld.ecs }

theorem reachable_stoppedWorld : Reachable .disclosing restoringCodec stoppedWorld :=
  .tick (.uniform ascendingOrder) [] (.new 5)

/-- A further tick without actions. -/
def idleTick : List (List (String × GameAction) × TickOrder Milli × TickOrder Milli) :=
  [([], .uniform ascendingOrder, .uniform ascendingOrder)]

theorem restartTransparent_iff_stoppedWorld
    : (RestartTransparent .disclosing restoringCodec SameState stoppedWorld ascendingOrder
          idleTick
        ↔ idleTick = [])
      ∧ (RestartTransparent .disclosing restoringCodec (fun left right => left.ecs = right.ecs)
            stoppedWorld ascendingOrder idleTick
          ↔ ∀ entry ∈ trace .disclosing restoringCodec (idleTick.map (fun t => (t.1, t.2.1)))
                stoppedWorld,
              entry.1 ≠ .ok ()) :=
  restartTransparent_iff reachable_stoppedWorld rfl idleTick

/-- After a restart the first tick spawns ten NPCs again. -/
theorem restartTransparent_fails_idle
    : ¬ ∀ stopped : GameWorld Milli, Reachable .disclosing restoringCodec stopped
        → ∀ walk, restoringCodec.decode (stopped.serializeState restoringCodec walk)
              = .ok stopped.ecs
          → ∀ later,
              RestartTransparent .disclosing restoringCodec SameState stopped walk later := by
  intro claimed
  obtain ⟨restored, read, run⟩ :=
    claimed stoppedWorld reachable_stoppedWorld ascendingOrder rfl idleTick
  obtain rfl := Except.ok.inj read
  cases run with
  | cons onTick _ =>
      have ids := congrArg EcsWorld.nextEntityId onTick.2.ecs
      exact absurd ids (by decide +kernel)

end StoppedWorld

end GameWorld

end VeloChain
