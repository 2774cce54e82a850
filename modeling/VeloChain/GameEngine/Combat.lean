import VeloChain.GameEngine.Ecs

/-! Combat: damage, cooldowns and the attacks of a tick.
The table of combat stats is only read while the attacks of a tick are resolved, so what limits
an attacker is the cooldown it had before.
-/

namespace VeloChain

variable (F : Type)

/-- Combat stats for an entity. -/
structure CombatStats where
  attack : F
  defense : F
  attackRange : F
  attackCooldown : UInt32
  cooldownRemaining : UInt32
  critChance : F
  critMultiplier : F
  deriving DecidableEq

/-- Result of a damage calculation. -/
structure DamageResult where
  rawDamage : F
  finalDamage : F
  isCritical : Bool
  isKill : Bool
  deriving DecidableEq

/-- Pending combat action to be resolved during the tick. -/
structure CombatAction where
  attackerId : EntityId
  targetId : EntityId
  deriving DecidableEq

/-- Combat log entry for events that occurred during a tick. -/
structure CombatLogEntry where
  tick : UInt64
  attackerId : EntityId
  targetId : EntityId
  damage : F
  isCritical : Bool
  isKill : Bool
  deriving DecidableEq

/-- Combat resolver processes all combat actions for a tick. -/
structure CombatResolver where
  pendingActions : List CombatAction
  log : List (CombatLogEntry F)
  deriving DecidableEq

variable {F} [F32 F]

namespace CombatStats

/-- No stats at all: what an unknown defender has. -/
def default : CombatStats F :=
  { attack := 0.0
    defense := 0.0
    attackRange := 0.0
    attackCooldown := 0
    cooldownRemaining := 0
    critChance := 0.0
    critMultiplier := 0.0 }

/-- Create default player combat stats. -/
def playerDefault : CombatStats F :=
  { attack := 10.0
    defense := 5.0
    attackRange := 2.0
    attackCooldown := 5
    cooldownRemaining := 0
    critChance := 0.05
    critMultiplier := 2.0 }

/-- Check if this entity can attack right now. -/
def canAttack (stats : CombatStats F) : Bool :=
  stats.cooldownRemaining == 0 && F32.lt 0.0 stats.attack

/-- Tick cooldown by one. -/
def tickCooldown (stats : CombatStats F) : CombatStats F :=
  if stats.cooldownRemaining > 0 then
    { stats with cooldownRemaining := stats.cooldownRemaining - 1 }
  else stats

/-- Start attack cooldown after performing an attack. -/
def startCooldown (stats : CombatStats F) : CombatStats F :=
  { stats with cooldownRemaining := stats.attackCooldown }

omit [F32 F] in
theorem toNat_cooldownRemaining_tickCooldown (stats : CombatStats F)
    : stats.tickCooldown.cooldownRemaining.toNat = stats.cooldownRemaining.toNat - 1 := by
  unfold tickCooldown
  split
  next waiting =>
    have isPositive := UInt32.lt_iff_toNat_lt.mp waiting
    exact UInt32.toNat_sub_of_le _ _ (UInt32.le_iff_toNat_le.mpr isPositive)
  next ready =>
    have isZero : stats.cooldownRemaining.toNat = 0 := by
      have := UInt32.lt_iff_toNat_lt.not.mp ready
      simpa using this
    rw [isZero]

omit [F32 F] in
/-- Each tick takes one off the cooldown until nothing is left. -/
theorem toNat_cooldownRemaining_iterate (stats : CombatStats F) (ticks : Nat)
    : (tickCooldown^[ticks] stats).cooldownRemaining.toNat
      = stats.cooldownRemaining.toNat - ticks := by
  induction ticks with
  | zero => rfl
  | succ ticks ih =>
      rw [Function.iterate_succ_apply', toNat_cooldownRemaining_tickCooldown, ih, Nat.sub_sub]

/-- An attack that starts the cooldown is followed by no other for that many ticks. -/
theorem canAttack_iterate_startCooldown {stats : CombatStats F} {ticks : Nat}
    (early : ticks < stats.attackCooldown.toNat)
    : (tickCooldown^[ticks] stats.startCooldown).canAttack = false := by
  have remaining := toNat_cooldownRemaining_iterate stats.startCooldown ticks
  have isPositive : (tickCooldown^[ticks] stats.startCooldown).cooldownRemaining ≠ 0 := by
    intro isZero
    rw [isZero] at remaining
    exact absurd remaining (Nat.sub_pos_of_lt early).ne
  simp [canAttack, isPositive]

end CombatStats

/-- Deterministic float in [0, 1) from tick and entity. -/
def deterministicFloat (keccak256 : Bytes → B256) (tick : UInt64) (entityId index : Nat) : F :=
  let result := hashSlice
    (keccak256
      (Bytes.littleEndian 8 tick.toNat ++ Bytes.littleEndian 8 entityId
        ++ Bytes.littleEndian 8 index))
  let val := Bytes.toNat (result.take 4).reverse
  F32.ofInt val / F32.ofInt 4294967295

/-- Calculate damage from attacker to defender; it is at least one. -/
def calculateDamage (keccak256 : Bytes → B256) (attacker defender : CombatStats F)
    (tick : UInt64) (attackerId : EntityId) : DamageResult F :=
  let critRoll := deterministicFloat keccak256 tick attackerId 0
  let isCritical := F32.lt critRoll attacker.critChance
  let critMult := if isCritical then attacker.critMultiplier else 1.0
  let rawDamage := attacker.attack * critMult
  let defenseReduction := defender.defense * (0.5 : F)
  let reduced := rawDamage - defenseReduction
  { rawDamage
    finalDamage := if F32.le 1.0 reduced then reduced else 1.0
    isCritical
    isKill := false }

namespace CombatResolver

def new : CombatResolver F := { pendingActions := [], log := [] }

/-- Queue a combat action. -/
def queueAttack (attackerId targetId : EntityId) (resolver : CombatResolver F)
    : CombatResolver F :=
  { resolver with pendingActions := resolver.pendingActions ++ [{ attackerId, targetId }] }

variable (keccak256 : Bytes → B256) (tick : UInt64) (stats : FinMap EntityId (CombatStats F))

/-- The hit of one action, if its attacker can attack. -/
def hit (action : CombatAction) : Option (EntityId × F × CombatLogEntry F) :=
  match stats.lookup action.attackerId with
  | none => none
  | some attackerStats =>
      if attackerStats.canAttack then
        let defenderStats := (stats.lookup action.targetId).getD .default
        let damage :=
          calculateDamage keccak256 attackerStats defenderStats tick action.attackerId
        some
          (action.targetId, damage.finalDamage,
            { tick
              attackerId := action.attackerId
              targetId := action.targetId
              damage := damage.finalDamage
              isCritical := damage.isCritical
              isKill := false })
      else none

/-- Resolve all pending combat actions for this tick. -/
def resolve (resolver : CombatResolver F)
    : List (EntityId × F × CombatLogEntry F) × CombatResolver F :=
  let results := resolver.pendingActions.filterMap (hit keccak256 tick stats)
  (results, { pendingActions := [], log := results.map (fun result => result.2.2) })

-----------------------------------------------------------------------------------------
-- The limit
-----------------------------------------------------------------------------------------

/-- How many hits of an attacker there are. -/
def hitsOf (attacker : EntityId) (results : List (EntityId × F × CombatLogEntry F)) : Nat :=
  results.countP (fun result => result.2.2.attackerId == attacker)

/-- How many attacks of an attacker are pending. -/
def queuedBy (attacker : EntityId) (resolver : CombatResolver F) : Nat :=
  resolver.pendingActions.countP (fun action => action.attackerId == attacker)

/-- Nobody hits before its cooldown is over, whoever has a cooldown hits at most once, and nothing
is pending afterwards.
-/
structure Limited (results : List (EntityId × F × CombatLogEntry F))
    (after : CombatResolver F) : Prop where
  cooled
    : ∀ result ∈ results, ∃ attackerStats,
        stats.lookup result.2.2.attackerId = some attackerStats
        ∧ attackerStats.cooldownRemaining = 0
  once
    : ∀ attacker attackerStats, stats.lookup attacker = some attackerStats →
        0 < attackerStats.attackCooldown → hitsOf attacker results ≤ 1
  pending : after.pendingActions = []

variable {keccak256 tick stats}

theorem hit_eq_some {action : CombatAction} {result : EntityId × F × CombatLogEntry F}
    (isHit : hit keccak256 tick stats action = some result)
    : result.2.2.attackerId = action.attackerId
      ∧ ∃ attackerStats,
          stats.lookup action.attackerId = some attackerStats
          ∧ attackerStats.canAttack = true := by
  unfold hit at isHit
  cases found : stats.lookup action.attackerId with
  | none => simp [found] at isHit
  | some attackerStats =>
      simp only [found] at isHit
      split at isHit
      next can =>
        obtain rfl := Option.some.inj isHit
        exact ⟨rfl, attackerStats, rfl, can⟩
      next => simp at isHit

/-- Whoever can attack hits as often as it is queued, by induction on the queue. -/
theorem hitsOf_filterMap {attacker : EntityId} {attackerStats : CombatStats F}
    (found : stats.lookup attacker = some attackerStats) (actions : List CombatAction)
    : hitsOf attacker (actions.filterMap (hit keccak256 tick stats))
      = if attackerStats.canAttack then
          actions.countP (fun action => action.attackerId == attacker)
        else 0 := by
  unfold hitsOf
  induction actions with
  | nil => simp
  | cons action rest ih =>
      rw [List.countP_cons]
      cases isHit : hit keccak256 tick stats action with
      | none =>
          rw [List.filterMap_cons_none isHit, ih]
          by_cases own : action.attackerId = attacker
          · -- an own attack without a hit: the attacker cannot attack
            have cannot : attackerStats.canAttack = false := by
              subst own
              unfold hit at isHit
              simp only [found] at isHit
              split at isHit
              next => simp at isHit
              next cannot => simpa using cannot
            simp [cannot]
          · simp [own]
      | some result =>
          obtain ⟨isAttacker, hitStats, isStats, can⟩ := hit_eq_some isHit
          rw [List.filterMap_cons_some isHit, List.countP_cons, ih, isAttacker]
          by_cases own : action.attackerId = attacker
          · rw [own, found] at isStats
            rw [Option.some.inj isStats, if_pos can, if_pos can]
          · simp [own]

/-- Every hit is one of an attacker whose cooldown is over. -/
theorem cooled_resolve (resolver : CombatResolver F)
    : ∀ result ∈ (resolver.resolve keccak256 tick stats).1, ∃ attackerStats,
        stats.lookup result.2.2.attackerId = some attackerStats
        ∧ attackerStats.cooldownRemaining = 0 := by
  intro result member
  obtain ⟨action, -, isHit⟩ := List.mem_filterMap.mp member
  obtain ⟨isAttacker, attackerStats, found, can⟩ := hit_eq_some isHit
  refine ⟨attackerStats, isAttacker ▸ found, ?_⟩
  exact beq_iff_eq.mp (Bool.and_eq_true_iff.mp can).1

/-- The attacks of a tick are limited exactly when nobody who has a cooldown and can attack is
queued more than once.
-/
theorem attackRateLimit_iff (keccak256 : Bytes → B256) (tick : UInt64)
    (stats : FinMap EntityId (CombatStats F)) (resolver : CombatResolver F)
    : Limited stats (resolver.resolve keccak256 tick stats).1
          (resolver.resolve keccak256 tick stats).2
      ↔ ∀ attacker attackerStats, stats.lookup attacker = some attackerStats →
          0 < attackerStats.attackCooldown → attackerStats.canAttack = true →
          resolver.queuedBy attacker ≤ 1 := by
  constructor
  · intro limited attacker attackerStats found cooldown can
    have once := limited.once attacker attackerStats found cooldown
    rw [resolve, hitsOf_filterMap found, if_pos can] at once
    exact once
  · intro queuedOnce
    refine ⟨cooled_resolve resolver, fun attacker attackerStats found cooldown => ?_, rfl⟩
    rw [resolve, hitsOf_filterMap found]
    split
    next can => exact queuedOnce attacker attackerStats found cooldown can
    next => exact Nat.zero_le 1

/-- A player queues two attacks on another one. -/
def doubleAttack : CombatResolver Milli := (new.queueAttack 1 2).queueAttack 1 2

/-- Both attacks hit in the same tick. -/
theorem attackRateLimit_fails_on_doubleAttack
    : ¬ ∀ (stats : FinMap EntityId (CombatStats Milli)) (resolver : CombatResolver Milli),
        Limited stats (resolver.resolve (fun _ => 0) 1 stats).1
          (resolver.resolve (fun _ => 0) 1 stats).2 := by
  intro claimed
  have once :=
    (claimed ((∅ : FinMap EntityId (CombatStats Milli)).insert 1 .playerDefault)
      doubleAttack).once 1 .playerDefault rfl (by decide)
  exact absurd once (by decide +kernel)

end CombatResolver

end VeloChain
