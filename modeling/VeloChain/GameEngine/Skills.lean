import Mathlib.Algebra.GroupWithZero.Nat
import Mathlib.Algebra.BigOperators.Group.Finset.Basic
import VeloChain.Lib.CallTrace
import VeloChain.Lib.HashMapOrder

/-! Skills: the points that level-ups bring and what they are spent on.
Levels and points are 32-bit words that wrap around. The tree of a skill, its kind, its texts
and its effect are left out: no function here reads them.
-/

namespace VeloChain

abbrev SkillId := UInt32

/-- Skill definition: prerequisites come with their least levels. -/
structure SkillDef where
  id : SkillId
  maxLevel : UInt32
  costPerLevel : UInt32
  requiredLevel : UInt32
  prerequisites : List (SkillId × UInt32)
  deriving DecidableEq

/-- Skill registry holding all skill definitions. -/
abbrev SkillRegistry := FinMap SkillId SkillDef

/-- Player's skill state. -/
structure PlayerSkillState where
  skills : FinMap SkillId UInt32
  availablePoints : UInt32
  totalPointsEarned : UInt32

/-- Skill error types. -/
inductive SkillError
  | notFound (skillId : SkillId)
  | notEnoughPoints (required available : UInt32)
  | maxLevel (skillId : SkillId)
  | levelTooLow (required current : UInt32)
  | prerequisitesNotMet (missing : List (SkillId × UInt32))
  deriving DecidableEq

/-- Result of a skill operation. -/
inductive SkillResult
  | leveledUp (skillId : SkillId) (newLevel : UInt32)
  | pointsAwarded (points : UInt32)
  | error (error : SkillError)
  deriving DecidableEq

/-- Skill points awarded per level up. -/
def skillPointsPerLevel (playerLevel : UInt32) : UInt32 :=
  if 1 ≤ playerLevel ∧ playerLevel ≤ 5 then 1
  else if 6 ≤ playerLevel ∧ playerLevel ≤ 10 then 2
  else if 11 ≤ playerLevel ∧ playerLevel ≤ 20 then 3
  else 4

namespace PlayerSkillState

def new : PlayerSkillState := { skills := ∅, availablePoints := 0, totalPointsEarned := 0 }

/-- Get the current level of a skill. -/
def skillLevel (skillId : SkillId) (state : PlayerSkillState) : UInt32 :=
  (state.skills.lookup skillId).getD 0

end PlayerSkillState

namespace SkillRegistry

/-- Register a skill definition. -/
def register (registry : SkillRegistry) (skill : SkillDef) : SkillRegistry :=
  registry.insert skill.id skill

/-- Award skill points for a level up. -/
def awardLevelUpPoints (playerLevel : UInt32) (state : PlayerSkillState)
    : SkillResult × PlayerSkillState :=
  let points := skillPointsPerLevel playerLevel
  (.pointsAwarded points,
    { state with
      availablePoints := state.availablePoints + points
      totalPointsEarned := state.totalPointsEarned + points })

/-- The prerequisites that a player lacks. -/
def missingPrerequisites (skill : SkillDef) (state : PlayerSkillState)
    : List (SkillId × UInt32) :=
  skill.prerequisites.filter (fun prereq => state.skillLevel prereq.1 < prereq.2)

/-- Allocate a skill point. -/
def allocatePoint (registry : SkillRegistry) (skillId : SkillId) (playerLevel : UInt32)
    (state : PlayerSkillState) : SkillResult × PlayerSkillState :=
  match registry.lookup skillId with
  | none => (.error (.notFound skillId), state)
  | some skill =>
      let currentLevel := state.skillLevel skillId
      if skill.maxLevel ≤ currentLevel then
        (.error (.maxLevel skillId), state)
      else if playerLevel < skill.requiredLevel then
        (.error (.levelTooLow skill.requiredLevel playerLevel), state)
      else
        let missing := missingPrerequisites skill state
        if missing ≠ [] then
          (.error (.prerequisitesNotMet missing), state)
        else if state.availablePoints < skill.costPerLevel then
          (.error (.notEnoughPoints skill.costPerLevel state.availablePoints), state)
        else
          let state :=
            { state with
              availablePoints := state.availablePoints - skill.costPerLevel
              skills := state.skills.insert skillId (currentLevel + 1) }
          (.leveledUp skillId (state.skillLevel skillId), state)

end SkillRegistry

/-- What a player may do. -/
inductive SkillOp
  | awardLevelUpPoints (playerLevel : UInt32)
  | allocatePoint (skillId : SkillId) (playerLevel : UInt32)

/-- The points that an operation brings. -/
def SkillOp.points : SkillOp → Nat
  | .awardLevelUpPoints playerLevel => (skillPointsPerLevel playerLevel).toNat
  | .allocatePoint _ _ => 0

namespace SkillRegistry

/-- One operation. -/
def call (registry : SkillRegistry) (op : SkillOp) (state : PlayerSkillState)
    : Option (SkillResult × PlayerSkillState) :=
  match op with
  | .awardLevelUpPoints playerLevel => some (awardLevelUpPoints playerLevel state)
  | .allocatePoint skillId playerLevel => some (registry.allocatePoint skillId playerLevel state)

-----------------------------------------------------------------------------------------
-- Accounts
-----------------------------------------------------------------------------------------

/-- What a level of a skill costs. -/
def cost (registry : SkillRegistry) (skillId : SkillId) : Nat :=
  ((registry.lookup skillId).map (fun skill => skill.costPerLevel.toNat)).getD 0

/-- What the levels of the learned skills have cost. -/
def spent (registry : SkillRegistry) (state : PlayerSkillState) : Nat :=
  state.skills.keys.sum
    (fun skillId => (state.skillLevel skillId).toNat * registry.cost skillId)

/-- A learned skill is registered, has no level above its maximum, and has its prerequisites. -/
def Learned (registry : SkillRegistry) (state : PlayerSkillState) : Prop :=
  ∀ skillId level, state.skills.lookup skillId = some level →
    ∃ skill,
      registry.lookup skillId = some skill
      ∧ level ≤ skill.maxLevel
      ∧ (0 < level →
          ∀ prereq ∈ skill.prerequisites, prereq.2 ≤ state.skillLevel prereq.1)

/-- The points earned are available or spent, and what is learned was allowed. -/
structure Accounted (registry : SkillRegistry) (state : PlayerSkillState) : Prop where
  balance : state.totalPointsEarned.toNat = state.availablePoints.toNat + registry.spent state
  learned : registry.Learned state

variable {registry : SkillRegistry} {state : PlayerSkillState}

theorem accounted_new (registry : SkillRegistry) : registry.Accounted .new :=
  ⟨rfl, fun _ _ found => by simp [PlayerSkillState.new] at found⟩

/-- An allocation fails and changes nothing, or all its tests pass, and the skill is one level up.
-/
theorem allocatePoint_cases (registry : SkillRegistry) (skillId : SkillId)
    (playerLevel : UInt32) (state : PlayerSkillState)
    : (∃ e, registry.allocatePoint skillId playerLevel state = (.error e, state))
      ∨ ∃ skill,
          registry.lookup skillId = some skill
          ∧ state.skillLevel skillId < skill.maxLevel
          ∧ skill.requiredLevel ≤ playerLevel
          ∧ (∀ prereq ∈ skill.prerequisites, prereq.2 ≤ state.skillLevel prereq.1)
          ∧ skill.costPerLevel ≤ state.availablePoints
          ∧ (registry.allocatePoint skillId playerLevel state).2
            = { state with
                availablePoints := state.availablePoints - skill.costPerLevel
                skills := state.skills.insert skillId (state.skillLevel skillId + 1) } := by
  unfold allocatePoint
  cases found : registry.lookup skillId with
  | none => exact Or.inl ⟨_, rfl⟩
  | some skill =>
      simp only
      split
      next => exact Or.inl ⟨_, rfl⟩
      next below =>
        split
        next => exact Or.inl ⟨_, rfl⟩
        next reached =>
          split
          next => exact Or.inl ⟨_, rfl⟩
          next met =>
            split
            next => exact Or.inl ⟨_, rfl⟩
            next paid =>
              refine Or.inr ⟨skill, rfl, UInt32.not_le.mp below, UInt32.not_lt.mp reached,
                fun prereq member => ?_, UInt32.not_lt.mp paid, rfl⟩
              have := List.filter_eq_nil_iff.mp (not_not.mp met) prereq member
              simpa using this

/-- An allocation raises the level of its skill only. -/
theorem skillLevel_insert (skillId other : SkillId) (level points : UInt32)
    (state : PlayerSkillState)
    : { state with
          availablePoints := points
          skills := state.skills.insert skillId level }.skillLevel other
      = if other = skillId then level else state.skillLevel other := by
  simp only [PlayerSkillState.skillLevel, FinMap.lookup_insert_eq]
  split <;> rfl

/-- A level more costs what a level costs. -/
theorem spent_insert (registry : SkillRegistry) (skillId : SkillId) (points : UInt32)
    {level : UInt32} (raised : level.toNat = (state.skillLevel skillId).toNat + 1)
    : registry.spent
          { state with
            availablePoints := points
            skills := state.skills.insert skillId level }
      = registry.spent state + registry.cost skillId := by
  have unlearned : skillId ∉ state.skills.keys → (state.skillLevel skillId).toNat = 0 := by
    intro absent
    rw [Finmap.mem_keys, ← Finmap.lookup_eq_none] at absent
    rw [PlayerSkillState.skillLevel, absent]
    rfl
  have before
      : registry.spent state
        = (insert skillId state.skills.keys).sum
            (fun skillId => (state.skillLevel skillId).toNat * registry.cost skillId) :=
    (Finset.sum_insert_of_eq_zero_if_notMem fun absent => by
      rw [unlearned absent, Nat.zero_mul]).symm
  have keys : (state.skills.insert skillId level).keys = insert skillId state.skills.keys := by
    ext other
    rw [Finmap.mem_keys, Finmap.mem_insert, Finset.mem_insert, Finmap.mem_keys]
  -- the terms of the other skills are the same
  have others
      : ((insert skillId state.skills.keys).erase skillId).sum
            (fun other =>
              (if other = skillId then level else state.skillLevel other).toNat
                * registry.cost other)
        = ((insert skillId state.skills.keys).erase skillId).sum
            (fun other => (state.skillLevel other).toNat * registry.cost other) :=
    Finset.sum_congr rfl fun other member => by rw [if_neg (Finset.ne_of_mem_erase member)]
  have own := Finset.mem_insert_self skillId state.skills.keys
  rw [before, spent]
  simp only [keys, skillLevel_insert]
  rw [← Finset.add_sum_erase _ _ own, others, ← Finset.add_sum_erase _ _ own, if_pos rfl, raised,
    Nat.succ_mul]
  omega

/-- A purchase is accounted. -/
theorem accounted_allocatePoint (accounted : registry.Accounted state) (skillId : SkillId)
    (playerLevel : UInt32)
    : registry.Accounted (registry.allocatePoint skillId playerLevel state).2 := by
  rcases registry.allocatePoint_cases skillId playerLevel state
    with ⟨e, same⟩ | ⟨skill, registered, below, -, met, affordable, same⟩
  · rw [same]
    exact accounted
  · rw [same]
    have raised
        : (state.skillLevel skillId + 1).toNat = (state.skillLevel skillId).toNat + 1 := by
      have := UInt32.lt_iff_toNat_lt.mp below
      have := skill.maxLevel.toNat_lt
      rw [UInt32.toNat_add, UInt32.toNat_one]
      omega
    refine ⟨?_, fun other level found => ?_⟩
    · have isCost : registry.cost skillId = skill.costPerLevel.toNat := by
        rw [cost, registered]
        rfl
      have := accounted.balance
      have := UInt32.le_iff_toNat_le.mp affordable
      rw [spent_insert registry skillId _ raised, UInt32.toNat_sub_of_le _ _ affordable, isCost]
      simp only
      omega
    · -- what was satisfied stays so: no level goes down
      have grows (prereq : SkillId)
          : state.skillLevel prereq
            ≤ if prereq = skillId then state.skillLevel skillId + 1
              else state.skillLevel prereq := by
        split
        next here => rw [here, UInt32.le_iff_toNat_le, raised]; omega
        next => exact UInt32.le_refl _
      simp only [skillLevel_insert]
      rw [FinMap.lookup_insert_eq] at found
      split at found
      next here =>
        rw [here]
        refine ⟨skill, registered, ?_, fun _ prereq member => ?_⟩
        · rw [← Option.some.inj found, UInt32.le_iff_toNat_le, raised]
          exact UInt32.lt_iff_toNat_lt.mp below
        · exact UInt32.le_trans (met prereq member) (grows prereq.1)
      next =>
        obtain ⟨skill, registered, within, has⟩ := accounted.learned other level found
        exact ⟨skill, registered, within, fun positive prereq member =>
          UInt32.le_trans (has positive prereq member) (grows prereq.1)⟩

/-- A level-up is accounted, where the points fit. -/
theorem accounted_awardLevelUpPoints (accounted : registry.Accounted state)
    (playerLevel : UInt32)
    (fits : state.totalPointsEarned.toNat + (skillPointsPerLevel playerLevel).toNat < 2 ^ 32)
    : registry.Accounted (awardLevelUpPoints playerLevel state).2 := by
  refine ⟨?_, accounted.learned⟩
  have := accounted.balance
  have same : registry.spent (awardLevelUpPoints playerLevel state).2 = registry.spent state :=
    rfl
  rw [same]
  simp only [awardLevelUpPoints, UInt32.toNat_add]
  rw [Nat.mod_eq_of_lt fits, Nat.mod_eq_of_lt (by omega)]
  omega

/-- One call: the account stays balanced, and the total grows by the points it brings. -/
theorem accounted_call {op : SkillOp} {result : SkillResult} {after : PlayerSkillState}
    (accounted : registry.Accounted state)
    (fits : state.totalPointsEarned.toNat + op.points < 2 ^ 32)
    (returns : registry.call op state = some (result, after))
    : registry.Accounted after
      ∧ after.totalPointsEarned.toNat = state.totalPointsEarned.toNat + op.points := by
  cases op with
  | awardLevelUpPoints playerLevel =>
      obtain rfl := (Prod.mk.inj (Option.some.inj returns)).2
      refine ⟨accounted_awardLevelUpPoints accounted playerLevel fits, ?_⟩
      exact (UInt32.toNat_add _ _).trans (Nat.mod_eq_of_lt fits)
  | allocatePoint skillId playerLevel =>
      have isAfter := congrArg Prod.snd (Option.some.inj returns)
      simp only at isAfter
      rw [← isAfter]
      refine ⟨accounted_allocatePoint accounted skillId playerLevel, ?_⟩
      rcases registry.allocatePoint_cases skillId playerLevel state
        with ⟨e, same⟩ | ⟨skill, -, -, -, -, -, same⟩ <;> rw [same] <;> rfl

theorem call_ne_none (registry : SkillRegistry) (op : SkillOp) (state : PlayerSkillState)
    : registry.call op state ≠ none := by
  cases op <;> exact nofun

/-- A run whose points fit keeps the account and earns what its operations bring, by induction on
the operations.
-/
theorem accounted_final {ops : List SkillOp} {state : PlayerSkillState}
    (accounted : registry.Accounted state)
    (fits : state.totalPointsEarned.toNat + (ops.map SkillOp.points).sum < 2 ^ 32)
    : registry.Accounted (CallTrace.final registry.call ops state)
      ∧ (CallTrace.final registry.call ops state).totalPointsEarned.toNat
        = state.totalPointsEarned.toNat + (ops.map SkillOp.points).sum := by
  induction ops generalizing state with
  | nil => exact ⟨accounted, rfl⟩
  | cons op rest ih =>
      rw [List.map_cons, List.sum_cons] at fits ⊢
      cases returns : registry.call op state with
      | none => exact absurd returns (registry.call_ne_none op state)
      | some out =>
          obtain ⟨kept, total⟩ := accounted_call accounted (by omega) returns
          rw [CallTrace.final_cons_some returns]
          obtain ⟨keptAll, totalAll⟩ := ih kept (by omega)
          exact ⟨keptAll, by omega⟩

/-- After every run from the new state whose points fit in 32 bits, the points earned are those
of all level-ups; they are the available ones and what the learned levels have cost; no level is
above its maximum, and every skill with a level has its prerequisites.
-/
theorem skillPoints_run (registry : SkillRegistry) (ops : List SkillOp)
    (fits : (ops.map SkillOp.points).sum < 2 ^ 32)
    : let state := CallTrace.final registry.call ops PlayerSkillState.new
      state.totalPointsEarned.toNat = (ops.map SkillOp.points).sum
      ∧ state.totalPointsEarned.toNat
        = state.availablePoints.toNat
          + state.skills.keys.sum
              (fun skillId => (state.skillLevel skillId).toNat * registry.cost skillId)
      ∧ ∀ skillId level, state.skills.lookup skillId = some level →
          ∃ skill,
            registry.lookup skillId = some skill
            ∧ level ≤ skill.maxLevel
            ∧ (0 < level →
                ∀ prereq ∈ skill.prerequisites, prereq.2 ≤ state.skillLevel prereq.1) := by
  have fromNew : PlayerSkillState.new.totalPointsEarned.toNat = 0 := rfl
  obtain ⟨accounted, total⟩ := @accounted_final registry ops .new (accounted_new registry)
    (by omega)
  rw [fromNew, Nat.zero_add] at total
  exact ⟨total, accounted.balance, accounted.learned⟩

/-- The gathering tree: mining, and finds that need three levels of it. -/
def gatheringTree : SkillRegistry :=
  let prospector :=
    { id := 10, maxLevel := 10, costPerLevel := 1, requiredLevel := 1, prerequisites := [] }
  let luckyFind :=
    { id := 11, maxLevel := 5, costPerLevel := 2, requiredLevel := 5, prerequisites := [(10, 3)] }
  (register ∅ prospector).register luckyFind

/-- A player on level 12 learns to mine and to find, and has one point left. -/
def gathering : List SkillOp :=
  [ .awardLevelUpPoints 11, .awardLevelUpPoints 12, .allocatePoint 11 12, .allocatePoint 10 12
  , .allocatePoint 10 12, .allocatePoint 10 12, .allocatePoint 11 12 ]

theorem skillPoints_run_gathering
    : let state := CallTrace.final gatheringTree.call gathering PlayerSkillState.new
      state.totalPointsEarned.toNat = (gathering.map SkillOp.points).sum
      ∧ state.totalPointsEarned.toNat
        = state.availablePoints.toNat
          + state.skills.keys.sum
              (fun skillId => (state.skillLevel skillId).toNat * gatheringTree.cost skillId)
      ∧ ∀ skillId level, state.skills.lookup skillId = some level →
          ∃ skill,
            gatheringTree.lookup skillId = some skill
            ∧ level ≤ skill.maxLevel
            ∧ (0 < level →
                ∀ prereq ∈ skill.prerequisites, prereq.2 ≤ state.skillLevel prereq.1) :=
  skillPoints_run gatheringTree gathering (by decide)

example
    : (CallTrace.final gatheringTree.call gathering PlayerSkillState.new).skillLevel 11 = 1
      ∧ (CallTrace.final gatheringTree.call gathering PlayerSkillState.new).availablePoints
        = 1 := by
  decide

end SkillRegistry

end VeloChain
