import VeloChain.GameEngine.Population

/-! Spawns and deaths of NPCs over every interleaving of ticks and deaths.
A death is put down to the closest spawn point of its type that has a living NPC, not to the one
that spawned it; the totals of each type balance all the same.
-/

namespace VeloChain

variable {F : Type} [F32 F]

namespace SpawnManager

/-- The largest finite number, `f32::MAX`. -/
def maxFloat : F := 340282346638528859811704183484516925440.0

/-- The squared distance of a spawn point from a position, on the ground. -/
def groundDistance (position : F × F × F) (point : SpawnPoint F) : F :=
  let dx := point.position.1 - position.1
  let dy := point.position.2.1 - position.2.1
  dx * dx + dy * dy

/-- A spawn point of the type with a living NPC. -/
def isCandidate (npcType : String) (point : SpawnPoint F) : Bool :=
  point.archetype == npcType && decide (point.currentCount > 0)

/-- One turn of the search: the first of the closest ones is kept. -/
def closer (npcType : String) (position : F × F × F) (best : Option Nat × F)
    (entry : SpawnPoint F × Nat) : Option Nat × F :=
  if isCandidate npcType entry.1 then
    let dist := groundDistance position entry.1
    if F32.lt dist best.2 then (some entry.2, dist) else best
  else best

/-- The closest spawn point of this type. -/
def closestPoint (npcType : String) (position : F × F × F) (points : List (SpawnPoint F))
    : Option Nat :=
  (points.zipIdx.foldl (closer npcType position) (none, maxFloat)).1

/-- One NPC less; the count saturates at zero. -/
def recordDeath (point : SpawnPoint F) : SpawnPoint F :=
  { point with
    currentCount := if point.currentCount = 0 then 0 else point.currentCount - 1
    cooldownRemaining := point.respawnCooldown }

/-- Notify that an NPC of the given type died. -/
def notifyDeath (npcType : String) (position : F × F × F) (manager : SpawnManager F)
    : SpawnManager F :=
  match closestPoint npcType position manager.spawnPoints with
  | some idx => { manager with spawnPoints := manager.spawnPoints.modify idx recordDeath }
  | none => manager

end SpawnManager

/-- The operations of the spawn manager. -/
inductive SpawnOp (F : Type)
  | tickSpawns
  | notifyDeath (npcType : String) (position : F × F × F)

/-- How often an operation ticks the spawn points. -/
def SpawnOp.ticks : SpawnOp F → Nat
  | .tickSpawns => 1
  | .notifyDeath _ _ => 0

namespace SpawnManager

/-- One operation, with what it spawns. -/
def call (op : SpawnOp F) (manager : SpawnManager F)
    : Option (List (String × (F × F × F) × List (F × F × F)) × SpawnManager F) :=
  match op with
  | .tickSpawns => some manager.tickSpawns
  | .notifyDeath npcType position => some ([], manager.notifyDeath npcType position)

-----------------------------------------------------------------------------------------
-- The search
-----------------------------------------------------------------------------------------

variable {npcType : String} {position : F × F × F}

/-- The search ends with what it began with or with a candidate, by induction on the entries. -/
theorem foldl_closer_cases (entries : List (SpawnPoint F × Nat)) (best : Option Nat × F)
    : (entries.foldl (closer npcType position) best).1 = best.1
      ∨ ∃ entry ∈ entries,
          isCandidate npcType entry.1 = true
          ∧ (entries.foldl (closer npcType position) best).1 = some entry.2 := by
  induction entries generalizing best with
  | nil => exact Or.inl rfl
  | cons first rest ih =>
      rw [List.foldl_cons]
      rcases ih (closer npcType position best first) with same | ⟨entry, member, found⟩
      · rw [same, closer]
        split
        next candidate =>
          simp only
          split
          next => exact Or.inr ⟨first, List.mem_cons_self, candidate, rfl⟩
          next => exact Or.inl rfl
        next => exact Or.inl rfl
      · exact Or.inr ⟨entry, List.mem_cons_of_mem _ member, found⟩

/-- The search finds one where there is a candidate in reach of its start. -/
theorem isSome_foldl_closer {entries : List (SpawnPoint F × Nat)} {best : Option Nat × F}
    (reach
      : best.1.isSome = true
        ∨ (∃ entry ∈ entries, isCandidate npcType entry.1 = true)
          ∧ ∀ entry ∈ entries, isCandidate npcType entry.1 = true →
              F32.lt (groundDistance position entry.1) best.2 = true)
    : (entries.foldl (closer npcType position) best).1.isSome = true := by
  induction entries generalizing best with
  | nil =>
      rcases reach with found | ⟨⟨entry, member, -⟩, -⟩
      · exact found
      · simp at member
  | cons first rest ih =>
      rw [List.foldl_cons]
      apply ih
      unfold closer
      rcases reach with found | ⟨⟨entry, member, isOne⟩, close⟩
      · left
        split
        next => simp only; split <;> [rfl; exact found]
        next => exact found
      · split
        next candidate =>
          rw [if_pos (close first List.mem_cons_self candidate)]
          exact Or.inl rfl
        next other =>
          refine Or.inr ⟨⟨entry, ?_, isOne⟩, fun entry later =>
            close entry (List.mem_cons_of_mem _ later)⟩
          rcases List.mem_cons.mp member with rfl | later
          · exact absurd isOne other
          · exact later

/-- The point found is a candidate. -/
theorem closestPoint_eq_some {points : List (SpawnPoint F)} {idx : Nat}
    (found : closestPoint npcType position points = some idx)
    : ∃ point, points[idx]? = some point ∧ isCandidate npcType point = true := by
  rcases foldl_closer_cases points.zipIdx (none, maxFloat)
    with none | ⟨entry, member, candidate, same⟩
  · exact absurd (none.symm.trans found) (by simp)
  · obtain rfl := Option.some.inj (same.symm.trans found)
    exact ⟨entry.1, List.mem_zipIdx_iff_getElem?.mp member, candidate⟩

/-- One is found where there is a candidate and all of them are in reach. -/
theorem exists_closestPoint {points : List (SpawnPoint F)}
    (candidate : ∃ point ∈ points, isCandidate npcType point = true)
    (close
      : ∀ point ∈ points, point.archetype = npcType →
          F32.lt (groundDistance position point) maxFloat = true)
    : ∃ idx, closestPoint npcType position points = some idx := by
  obtain ⟨point, member, isOne⟩ := candidate
  refine Option.isSome_iff_exists.mp
    (isSome_foldl_closer (Or.inr ⟨?_, fun entry there isOne => ?_⟩))
  · obtain ⟨idx, isHere⟩ := List.mem_iff_getElem?.mp member
    exact ⟨(point, idx), List.mem_zipIdx_iff_getElem?.mpr isHere, isOne⟩
  · have isPoint := List.mem_of_getElem? (List.mem_zipIdx_iff_getElem?.mp there)
    exact close entry.1 isPoint (beq_iff_eq.mp (Bool.and_eq_true_iff.mp isOne).1)

-----------------------------------------------------------------------------------------
-- One call
-----------------------------------------------------------------------------------------

/-- What a call makes of one spawn point. -/
structure PointStep (op : SpawnOp F) (before after : SpawnPoint F) : Prop where
  archetype : after.archetype = before.archetype
  maxCount : after.maxCount = before.maxCount
  respawnCooldown : after.respawnCooldown = before.respawnCooldown
  within : before.currentCount ≤ before.maxCount → after.currentCount ≤ before.maxCount
  spawned
    : before.currentCount < after.currentCount →
        op = .tickSpawns
        ∧ before.cooldownRemaining = 0
        ∧ after.cooldownRemaining = before.respawnCooldown
  cooled
    : before.cooldownRemaining.toNat
        ≤ after.cooldownRemaining.toNat + op.ticks
      ∨ after.cooldownRemaining = before.respawnCooldown

omit [F32 F] in
theorem pointStep_tickSpawnPoint (point : SpawnPoint F)
    : PointStep .tickSpawns point (tickSpawnPoint point).2 := by
  unfold tickSpawnPoint
  split
  next room =>
    split
    next cooling =>
      have positive := UInt32.lt_iff_toNat_lt.mp cooling
      have lowered := UInt32.toNat_sub_of_le _ 1 (UInt32.le_iff_toNat_le.mpr positive)
      refine ⟨rfl, rfl, rfl, id, fun more => absurd more (UInt32.lt_irrefl _), Or.inl ?_⟩
      simp only [lowered, UInt32.toNat_one, SpawnOp.ticks]
      omega
    next ready =>
      have none : point.cooldownRemaining = 0 := UInt32.toNat_inj.mp (by
        have := UInt32.lt_iff_toNat_lt.not.mp ready
        rw [UInt32.toNat_zero] at this ⊢
        omega)
      refine ⟨rfl, rfl, rfl, fun _ => ?_, fun _ => ⟨rfl, none, rfl⟩, Or.inr rfl⟩
      have below := UInt32.lt_iff_toNat_lt.mp room
      have bound := point.maxCount.toNat_lt
      rw [UInt32.le_iff_toNat_le, UInt32.toNat_add, UInt32.toNat_one]
      omega
  next =>
    exact ⟨rfl, rfl, rfl, id, fun more => absurd more (UInt32.lt_irrefl _),
      Or.inl (Nat.le_add_right _ _)⟩

omit [F32 F] in
theorem toNat_recordDeath (point : SpawnPoint F)
    : (recordDeath point).currentCount.toNat = point.currentCount.toNat - 1 := by
  unfold recordDeath
  split
  next none => rw [none]; rfl
  next some =>
    have positive : 1 ≤ point.currentCount := by
      rw [UInt32.le_iff_toNat_le, UInt32.toNat_one]
      have := UInt32.toNat_inj.not.mpr some
      rw [UInt32.toNat_zero] at this
      omega
    exact UInt32.toNat_sub_of_le _ _ positive

omit [F32 F] in
theorem pointStep_recordDeath (npcType : String) (position : F × F × F) (point : SpawnPoint F)
    : PointStep (.notifyDeath npcType position) point (recordDeath point) := by
  have count := toNat_recordDeath point
  refine ⟨rfl, rfl, rfl, fun within => ?_, fun more => ?_, Or.inr rfl⟩
  · have := UInt32.le_iff_toNat_le.mp within
    rw [UInt32.le_iff_toNat_le]
    omega
  · have := UInt32.lt_iff_toNat_lt.mp more
    omega

variable {manager after : SpawnManager F} {op : SpawnOp F}
  {reply : List (String × (F × F × F) × List (F × F × F))}

/-- Every call takes each spawn point a step on. -/
theorem pointStep_call (returns : call op manager = some (reply, after)) (index : Nat)
    : ∃ f : SpawnPoint F → SpawnPoint F,
        after.spawnPoints[index]? = manager.spawnPoints[index]?.map f
        ∧ ∀ point, PointStep op point (f point) := by
  have same (point : SpawnPoint F) : PointStep op point (id point) :=
    ⟨rfl, rfl, rfl, id, fun more => absurd more (UInt32.lt_irrefl _),
      Or.inl (Nat.le_add_right _ _)⟩
  cases op with
  | tickSpawns =>
      obtain rfl := (Prod.mk.inj (Option.some.inj returns)).2
      exact ⟨fun point => (tickSpawnPoint point).2, List.getElem?_map, pointStep_tickSpawnPoint⟩
  | notifyDeath npcType position =>
      obtain rfl := (Prod.mk.inj (Option.some.inj returns)).2
      unfold notifyDeath
      split
      next idx _ =>
        refine ⟨if idx = index then recordDeath else id, ?_, fun point => ?_⟩
        · simp only [List.getElem?_modify]
          split <;> simp
        · split
          next => exact pointStep_recordDeath npcType position point
          next => exact same point
      next => exact ⟨id, by simp, same⟩

omit [F32 F] in
/-- What a death takes back is counted by the type of the spawn point. -/
theorem counted_modify {points : List (SpawnPoint F)} {idx : Nat} {point : SpawnPoint F}
    (found : points[idx]? = some point) (positive : 0 < point.currentCount)
    (archetypes : List (NpcArchetype F)) (npcType : String)
    : counted npcType { spawnPoints := points.modify idx recordDeath, archetypes }
        + (if point.archetype = npcType then 1 else 0)
      = counted npcType { spawnPoints := points, archetypes } := by
  unfold counted
  induction points generalizing idx with
  | nil => simp at found
  | cons first rest ih =>
      cases idx with
      | zero =>
          obtain rfl := Option.some.inj found
          have count := toNat_recordDeath first
          have := UInt32.lt_iff_toNat_lt.mp positive
          have archetype : (recordDeath first).archetype = first.archetype := rfl
          simp only [List.modify_zero_cons, List.filter_cons, archetype, beq_iff_eq]
          split
          next =>
            simp only [List.map_cons, List.sum_cons, count]
            rw [UInt32.toNat_zero] at this
            omega
          next => rfl
      | succ idx =>
          have others := ih found
          simp only [List.modify_succ_cons, List.filter_cons] at others ⊢
          split
          next =>
            simp only [List.map_cons, List.sum_cons]
            omega
          next => exact others

omit [F32 F] in
/-- Where a type is counted, one of its spawn points has a living NPC. -/
theorem exists_candidate {npcType : String} (some : 0 < manager.counted npcType)
    : ∃ point ∈ manager.spawnPoints, isCandidate npcType point = true := by
  by_contra none
  have zero : manager.counted npcType = 0 := by
    apply List.sum_eq_zero
    intro count member
    obtain ⟨point, isPoint, rfl⟩ := List.mem_map.mp member
    obtain ⟨there, ofType⟩ := List.mem_filter.mp isPoint
    by_contra positive
    refine none ⟨point, there, Bool.and_eq_true_iff.mpr ⟨ofType, decide_eq_true ?_⟩⟩
    rw [gt_iff_lt, UInt32.lt_iff_toNat_lt, UInt32.toNat_zero]
    omega
  omega

/-- A death of a type that is counted takes one of it back, if its spawn points are in reach. -/
theorem counted_notifyDeath {npcType : String} {position : F × F × F}
    (some : 0 < manager.counted npcType)
    (close
      : ∀ point ∈ manager.spawnPoints, point.archetype = npcType →
          F32.lt (groundDistance position point) maxFloat = true)
    (other : String)
    : (manager.notifyDeath npcType position).counted other
        + (if npcType = other then 1 else 0)
      = manager.counted other := by
  obtain ⟨idx, found⟩ := exists_closestPoint (exists_candidate some) close
  obtain ⟨point, isPoint, candidate⟩ := closestPoint_eq_some found
  obtain ⟨ofType, positive⟩ := Bool.and_eq_true_iff.mp candidate
  rw [notifyDeath, found, ← beq_iff_eq.mp ofType]
  exact counted_modify isPoint (of_decide_eq_true positive) manager.archetypes other

end SpawnManager

-----------------------------------------------------------------------------------------
-- Runs
-----------------------------------------------------------------------------------------

/-- A call on the spawn manager that has returned. -/
abbrev SpawnTurn (F : Type) :=
  ReturnedCall (SpawnManager F) (SpawnOp F) (List (String × (F × F × F) × List (F × F × F)))

namespace SpawnTurn

/-- How many NPCs of a type a call has spawned. -/
def spawns (npcType : String) (turn : SpawnTurn F) : Nat :=
  turn.reply.countP (fun wanted => wanted.1 == npcType)

/-- How many NPCs of a type have died in a call. -/
def deaths (npcType : String) (turn : SpawnTurn F) : Nat :=
  match turn.op with
  | .notifyDeath died _ => if died = npcType then 1 else 0
  | .tickSpawns => 0

/-- How often a call has ticked the spawn points. -/
def ticks (turn : SpawnTurn F) : Nat := turn.op.ticks

/-- A spawn point has spawned: it counts more than before. -/
def SpawnedAt (index : Nat) (turn : SpawnTurn F) : Prop :=
  ∃ point later,
    turn.before.spawnPoints[index]? = some point
    ∧ turn.after.spawnPoints[index]? = some later
    ∧ point.currentCount < later.currentCount

/-- Whoever dies has been spawned, and every spawn point of the type is in reach of the search. -/
def Witnessed (past : List (SpawnTurn F)) (turn : SpawnTurn F) : Prop :=
  ∀ npcType position, turn.op = .notifyDeath npcType position →
    (past.map (deaths npcType)).sum < (past.map (spawns npcType)).sum
    ∧ ∀ point ∈ turn.before.spawnPoints, point.archetype = npcType →
        F32.lt (SpawnManager.groundDistance position point) SpawnManager.maxFloat = true

end SpawnTurn

namespace SpawnManager

/-- What is spawned of each type has died or is counted, as long as just what was spawned dies. -/
def Balanced (past : List (SpawnTurn F)) (manager : SpawnManager F) : Prop :=
  (∀ earlier turn later, past = earlier ++ turn :: later → turn.Witnessed earlier) →
    ∀ npcType,
      manager.counted npcType + (past.map (SpawnTurn.deaths npcType)).sum
      = (past.map (SpawnTurn.spawns npcType)).sum

/-- Since a spawn point has spawned, its cooldown went down by one a tick at most. -/
def Cooled (past : List (SpawnTurn F)) (manager : SpawnManager F) : Prop :=
  ∀ (index : Nat) point, manager.spawnPoints[index]? = some point →
    ∀ earlier first between, past = earlier ++ first :: between →
      SpawnTurn.SpawnedAt index first →
      point.respawnCooldown.toNat
        ≤ point.cooldownRemaining.toNat + (between.map SpawnTurn.ticks).sum

variable {manager after : SpawnManager F} {op : SpawnOp F}
  {reply : List (String × (F × F × F) × List (F × F × F))} {past : List (SpawnTurn F)}
  {turn : SpawnTurn F}

theorem Balanced.call (balanced : turn.before.Balanced past)
    (returns : call turn.op turn.before = some (turn.reply, turn.after))
    : turn.after.Balanced (past ++ [turn]) := by
  intro witnessed npcType
  have here : turn.Witnessed past := witnessed past turn [] rfl
  have before := balanced (fun earlier turn later split =>
    witnessed earlier turn (later ++ _) (by rw [split, List.append_assoc]; rfl))
  have total := before npcType
  simp only [List.map_append, List.map_singleton, List.sum_append, List.sum_singleton]
  cases isOp : turn.op with
  | tickSpawns =>
      rw [isOp] at returns
      have isOut : turn.before.tickSpawns = (turn.reply, turn.after) := Option.some.inj returns
      have counted := counted_tickSpawns npcType turn.before
      rw [isOut] at counted
      simp only at counted
      simp only [SpawnTurn.deaths, SpawnTurn.spawns, isOp]
      omega
  | notifyDeath died position =>
      rw [isOp] at returns
      obtain ⟨isReply, isAfter⟩ := Prod.mk.inj (Option.some.inj returns)
      obtain ⟨fewer, close⟩ := here died position isOp
      have totalDied := before died
      have counted := counted_notifyDeath (by omega) close npcType
      rw [isAfter] at counted
      simp only [SpawnTurn.deaths, SpawnTurn.spawns, isOp, ← isReply, List.countP_nil]
      omega

/-- A call spawns where the cooldown is over, and elsewhere it takes it down by one at most. -/
theorem Cooled.call (cooled : turn.before.Cooled past)
    (returns : call turn.op turn.before = some (turn.reply, turn.after))
    : turn.after.Cooled (past ++ [turn]) := by
  intro index later isLater earlier first between split spawned
  obtain ⟨f, same, steps⟩ := pointStep_call returns index
  rw [same] at isLater
  obtain ⟨point, isPoint, rfl⟩ := Option.map_eq_some_iff.mp isLater
  have step := steps point
  rw [step.respawnCooldown]
  rcases List.eq_nil_or_concat between with rfl | ⟨between, last, rfl⟩
  · -- the last call is the one that spawned
    obtain ⟨rfl, isTurn⟩ := List.append_inj' split rfl
    obtain rfl := (List.cons.inj isTurn).1
    obtain ⟨old, new, isOld, isNew, more⟩ := spawned
    obtain rfl := Option.some.inj (isPoint.symm.trans isOld)
    rw [same, isPoint] at isNew
    obtain rfl := Option.some.inj isNew
    rw [(step.spawned more).2.2]
    exact Nat.le_add_right _ _
  · rw [List.concat_eq_append] at split ⊢
    rw [← List.cons_append, ← List.append_assoc] at split
    obtain ⟨isPast, isTurn⟩ := List.append_inj' split rfl
    obtain rfl := (List.cons.inj isTurn).1
    have before := cooled index point isPoint earlier first between isPast spawned
    rw [List.map_append, List.sum_append, List.map_singleton, List.sum_singleton]
    simp only [SpawnTurn.ticks]
    rcases step.cooled with lowered | reset
    · omega
    · rw [reset]
      omega

/-- A spawn finds its cooldown over. -/
theorem cooled_of_spawnedAt {index : Nat} (spawned : SpawnTurn.SpawnedAt index turn)
    (returns : call turn.op turn.before = some (turn.reply, turn.after))
    : turn.ticks = 1
      ∧ ∃ point,
          turn.before.spawnPoints[index]? = some point ∧ point.cooldownRemaining = 0 := by
  obtain ⟨point, later, isPoint, isLater, more⟩ := spawned
  obtain ⟨f, same, steps⟩ := pointStep_call returns index
  rw [same, isPoint] at isLater
  obtain rfl := Option.some.inj isLater
  obtain ⟨isTick, none, -⟩ := (steps point).spawned more
  exact ⟨by rw [SpawnTurn.ticks, isTick]; rfl, point, isPoint, none⟩

/-- A call keeps every spawn point within its maximum. -/
theorem within_call (within : ∀ point ∈ manager.spawnPoints, point.currentCount ≤ point.maxCount)
    (returns : call op manager = some (reply, after))
    : ∀ point ∈ after.spawnPoints, point.currentCount ≤ point.maxCount := by
  intro later member
  obtain ⟨index, isLater⟩ := List.mem_iff_getElem?.mp member
  obtain ⟨f, same, steps⟩ := pointStep_call returns index
  rw [same] at isLater
  obtain ⟨point, isPoint, rfl⟩ := Option.map_eq_some_iff.mp isLater
  rw [(steps point).maxCount]
  exact (steps point).within (within point (List.mem_of_getElem? isPoint))

/-- The cooldown of a spawn point stays what it is. -/
theorem respawnCooldown_calls {ops : List (SpawnOp F)} {index : Nat} {point : SpawnPoint F}
    (isPoint : manager.spawnPoints[index]? = some point) {turn : SpawnTurn F}
    (member : turn ∈ CallTrace.calls call ops manager) {later : SpawnPoint F}
    (isLater : turn.before.spawnPoints[index]? = some later)
    : later.respawnCooldown = point.respawnCooldown := by
  have kept := CallTrace.calls_invariant
    (fun manager : SpawnManager F =>
      manager.spawnPoints[index]?.map SpawnPoint.respawnCooldown = some point.respawnCooldown)
    (fun op manager reply after kept returns => by
      obtain ⟨f, same, steps⟩ := pointStep_call returns index
      rw [same, Option.map_map, ← kept]
      exact congrFun (congrArg Option.map (funext fun point => (steps point).respawnCooldown)) _)
    (by rw [isPoint, Option.map_some]) turn member
  rw [isLater, Option.map_some] at kept
  exact Option.some.inj kept.1

/-- From one spawn of a spawn point to a later one its cooldown has passed. -/
theorem spawns_apart {ops : List (SpawnOp F)} {index : Nat} {point : SpawnPoint F}
    (isPoint : manager.spawnPoints[index]? = some point)
    {earlier between later : List (SpawnTurn F)} {first second : SpawnTurn F}
    (split
      : CallTrace.calls call ops manager = earlier ++ first :: (between ++ second :: later))
    (spawned : SpawnTurn.SpawnedAt index first) (again : SpawnTurn.SpawnedAt index second)
    : point.respawnCooldown.toNat + 1 ≤ ((between ++ [second]).map SpawnTurn.ticks).sum := by
  have member : second ∈ CallTrace.calls call ops manager := by simp [split]
  have none : manager.Cooled [] := fun _ _ _ earlier _ _ nil => by simp at nil
  have cooled : second.before.Cooled ([] ++ (earlier ++ first :: between)) :=
    CallTrace.past_invariant (fun past manager => Cooled past manager)
      (fun past turn cooled returns => cooled.call returns) none
      (by rw [split, List.append_assoc]; rfl)
  obtain ⟨tick, current, isCurrent, isOver⟩ :=
    cooled_of_spawnedAt again (CallTrace.call_of_mem member)
  have passed := cooled index current isCurrent earlier first between rfl spawned
  rw [respawnCooldown_calls isPoint member isCurrent, isOver, UInt32.toNat_zero] at passed
  rw [List.map_append, List.sum_append, List.map_singleton, List.sum_singleton, tick]
  omega

/-- From spawn points that have counted nothing, in every interleaving of ticks and deaths of what
was spawned, what is counted of each type is what was spawned of it and has not died, no spawn
point is above its maximum, and from one spawn of a spawn point to a later one its cooldown has
passed.
-/
theorem spawnAccounting_run (manager : SpawnManager F)
    (fresh : ∀ point ∈ manager.spawnPoints, point.currentCount = 0) (ops : List (SpawnOp F))
    (witnessed
      : ∀ earlier (turn : SpawnTurn F) later,
          CallTrace.calls call ops manager = earlier ++ turn :: later → turn.Witnessed earlier)
    : let turns : List (SpawnTurn F) := CallTrace.calls call ops manager
      let final := CallTrace.final call ops manager
      (∀ npcType,
          final.counted npcType + (turns.map (SpawnTurn.deaths npcType)).sum
          = (turns.map (SpawnTurn.spawns npcType)).sum)
      ∧ (∀ point ∈ final.spawnPoints, point.currentCount ≤ point.maxCount)
      ∧ ∀ (index : Nat) point, manager.spawnPoints[index]? = some point →
          ∀ earlier first between second later,
            turns = earlier ++ first :: (between ++ second :: later) →
            SpawnTurn.SpawnedAt index first → SpawnTurn.SpawnedAt index second →
            point.respawnCooldown.toNat + 1
              ≤ ((between ++ [second]).map SpawnTurn.ticks).sum := by
  refine ⟨?_, ?_, ?_⟩
  · have none : manager.Balanced [] := fun _ npcType => by
      refine List.sum_eq_zero fun count member => ?_
      obtain ⟨point, isPoint, rfl⟩ := List.mem_map.mp member
      rw [fresh point (List.mem_filter.mp isPoint).1]
      rfl
    have balanced
        : (CallTrace.final call ops manager).Balanced ([] ++ CallTrace.calls call ops manager) :=
      CallTrace.past_invariant_final (fun past manager => Balanced past manager)
        (fun past turn balanced returns => balanced.call returns) none
    exact balanced witnessed
  · refine CallTrace.final_invariant
      (fun manager : SpawnManager F =>
        ∀ point ∈ manager.spawnPoints, point.currentCount ≤ point.maxCount)
      (fun _ _ _ _ within returns => within_call within returns) fun point member => ?_
    rw [fresh point member, UInt32.le_iff_toNat_le]
    exact Nat.zero_le _
  · intro index point isPoint earlier first between second later split spawned again
    exact spawns_apart isPoint split spawned again

/-- A spawn point of one wolf, which comes back with the next tick. -/
def wolfDen : SpawnManager Milli :=
  { spawnPoints :=
      [ { archetype := "wolf"
          position := (30.0, 30.0, 0.0)
          patrolWaypoints := []
          spawnRadius := 10.0
          maxCount := 1
          currentCount := 0
          respawnCooldown := 0
          cooldownRemaining := 0 } ]
    archetypes := defaultArchetypes }

/-- The wolf is spawned, dies, and is spawned again. -/
def wolfHunt : List (SpawnOp Milli) :=
  [.tickSpawns, .notifyDeath "wolf" (31.0, 30.0, 0.0), .tickSpawns]

theorem spawnAccounting_run_wolfHunt
    : let turns : List (SpawnTurn Milli) := CallTrace.calls call wolfHunt wolfDen
      let final := CallTrace.final call wolfHunt wolfDen
      (∀ npcType,
          final.counted npcType + (turns.map (SpawnTurn.deaths npcType)).sum
          = (turns.map (SpawnTurn.spawns npcType)).sum)
      ∧ (∀ point ∈ final.spawnPoints, point.currentCount ≤ point.maxCount)
      ∧ ∀ (index : Nat) point, wolfDen.spawnPoints[index]? = some point →
          ∀ earlier first between second later,
            turns = earlier ++ first :: (between ++ second :: later) →
            SpawnTurn.SpawnedAt index first → SpawnTurn.SpawnedAt index second →
            point.respawnCooldown.toNat + 1
              ≤ ((between ++ [second]).map SpawnTurn.ticks).sum := by
  refine spawnAccounting_run wolfDen (by decide) wolfHunt fun earlier turn later split => ?_
  intro npcType position isDeath
  have three
      : CallTrace.calls call wolfHunt wolfDen
        = [ ⟨wolfDen, .tickSpawns, _, _⟩, ⟨_, .notifyDeath "wolf" (31.0, 30.0, 0.0), _, _⟩
          , ⟨_, .tickSpawns, _, _⟩ ] :=
    rfl
  rw [three] at split
  rcases earlier with _ | ⟨first, _ | ⟨second, _ | ⟨third, rest⟩⟩⟩
  · obtain rfl := (List.cons.inj split).1
    simp at isDeath
  · obtain ⟨rfl, others⟩ := List.cons.inj split
    obtain rfl := (List.cons.inj others).1
    obtain ⟨rfl, rfl⟩ := SpawnOp.notifyDeath.inj isDeath
    decide +kernel
  · obtain ⟨-, others⟩ := List.cons.inj split
    obtain rfl := (List.cons.inj (List.cons.inj others).2).1
    simp at isDeath
  · simp at split

end SpawnManager

end VeloChain
