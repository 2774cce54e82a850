import VeloChain.Storage.PruningSafety

/-! Pruning while the head moves down.
The interval since the last pruning is a difference of block numbers, which underflows when the
head has been lowered below the last pruning. The cutoff of the retention window is guarded.
-/

namespace VeloChain

/-- A difference of block numbers, where there is one. -/
def checkedDifference (a b : UInt64) : Option UInt64 := if b ≤ a then some (a - b) else none

namespace PruningEngine

-----------------------------------------------------------------------------------------
-- The operation with its subtractions checked
-----------------------------------------------------------------------------------------

/-- Generate prune targets; none where the cutoff underflows. -/
def checkedGeneratePruneTargets (engine : PruningEngine)
    : Option (List PruneTarget × PruningEngine) :=
  match engine.config.mode.retentionLimit with
  | none => some ([], engine)
  | some keep =>
      if engine.chainHead ≤ keep then some ([], engine)
      else
        (checkedDifference engine.chainHead keep).bind (fun cutoff =>
          engine.pruneLoop cutoff (engine.config.batchSize.toNat + 1) 0)

/-- Update the chain head; none where the interval or the cutoff underflows. -/
def checkedOnNewBlock (blockNumber : UInt64) (engine : PruningEngine)
    : Option (List PruneTarget × PruningEngine) :=
  let engine := engine.withHead blockNumber
  if engine.config.mode = .archive then some ([], engine)
  else
    (checkedDifference blockNumber engine.lastPruneBlock).bind (fun passed =>
      if passed < engine.config.intervalBlocks then some ([], engine)
      else { engine with lastPruneBlock := blockNumber }.checkedGeneratePruneTargets)

/-- The number is outside the retention window of a head. -/
def OutsideWindow (mode : PruningMode) (head number : UInt64) : Prop :=
  ∀ keep, mode.retentionLimit = some keep → number.toNat + keep.toNat < head.toNat

/-- Whether a call subtracts without underflow and returns only blocks outside the retention
window of the number it was given.
-/
def Prunes (turn : ReturnedCall PruningEngine PruneOp (List PruneTarget)) : Prop :=
  ∀ blockNumber, turn.op = .onNewBlock blockNumber →
    (turn.before.checkedOnNewBlock blockNumber).isSome
    ∧ ∀ target ∈ turn.reply,
        turn.before.config.mode ≠ .archive
        ∧ OutsideWindow turn.before.config.mode blockNumber target.blockNumber

/-- No number is below the one at which pruning last ran. It ran at a number when the interval
had passed since.
-/
def NeverBelow (interval : UInt64) : UInt64 → List UInt64 → Prop
  | _, [] => True
  | last, number :: rest =>
      last ≤ number
      ∧ NeverBelow interval (if number - last < interval then last else number) rest

instance decidableNeverBelow (interval last : UInt64) (numbers : List UInt64)
    : Decidable (NeverBelow interval last numbers) :=
  match numbers with
  | [] => .isTrue trivial
  | number :: rest =>
      have := decidableNeverBelow interval (if number - last < interval then last else number) rest
      inferInstanceAs (Decidable (_ ∧ _))

-----------------------------------------------------------------------------------------
-- One operation
-----------------------------------------------------------------------------------------

variable {engine after : PruningEngine} {targets : List PruneTarget}

/-- The cutoff does not underflow. -/
theorem checkedGeneratePruneTargets_eq (engine : PruningEngine)
    : engine.checkedGeneratePruneTargets = engine.generatePruneTargets := by
  unfold checkedGeneratePruneTargets generatePruneTargets
  cases engine.config.mode.retentionLimit with
  | none => rfl
  | some keep =>
      simp only
      split
      next => rfl
      next beyond =>
        rw [checkedDifference, if_pos (UInt64.le_of_lt (UInt64.not_le.mp beyond)),
          Option.bind_some]

/-- Where the interval does not underflow, the checked operation is the one that wraps around. -/
theorem checkedOnNewBlock_eq {blockNumber : UInt64}
    (above : engine.config.mode = .archive ∨ engine.lastPruneBlock ≤ blockNumber)
    : engine.checkedOnNewBlock blockNumber = engine.onNewBlock blockNumber := by
  unfold checkedOnNewBlock onNewBlock
  simp only [checkedGeneratePruneTargets_eq]
  split
  next => rfl
  next full =>
    have le : (engine.withHead blockNumber).lastPruneBlock ≤ blockNumber :=
      above.resolve_left full
    rw [checkedDifference, if_pos le, Option.bind_some]

theorem checkedOnNewBlock_isSome {blockNumber : UInt64}
    : (engine.checkedOnNewBlock blockNumber).isSome
      ↔ engine.config.mode = .archive ∨ engine.lastPruneBlock ≤ blockNumber := by
  constructor
  · intro returns
    by_contra underflows
    obtain ⟨full, below⟩ := not_or.mp underflows
    have same : (engine.withHead blockNumber).lastPruneBlock = engine.lastPruneBlock := rfl
    have mode : (engine.withHead blockNumber).config.mode = engine.config.mode := rfl
    simp only [checkedOnNewBlock, mode, full, if_false, checkedDifference, same, below,
      Option.bind_none, Option.isSome_none] at returns
    cases returns
  · intro above
    obtain ⟨targets, after, returns⟩ := call_returns (.onNewBlock blockNumber) engine
    rw [checkedOnNewBlock_eq above, show engine.onNewBlock blockNumber = _ from returns]
    rfl

/-- The targets of a new block are outside the window of its number. -/
theorem outsideWindow_onNewBlock {blockNumber : UInt64}
    (returns : call (.onNewBlock blockNumber) engine = some (targets, after))
    : ∀ target ∈ targets,
        engine.config.mode ≠ .archive
        ∧ OutsideWindow engine.config.mode blockNumber target.blockNumber := by
  intro target member
  obtain ⟨config, head, _, source, safe⟩ := call_safe returns
  obtain ⟨_, full⟩ := source (List.ne_nil_of_mem member)
  refine ⟨full, fun keep limit => ?_⟩
  obtain ⟨keep', limit', beyond, below⟩ := isRetained_eq_false_iff.mp (safe target member)
  rw [config] at limit'
  obtain rfl := Option.some.inj (limit.symm.trans limit')
  have isHead : after.chainHead = blockNumber := head
  rw [isHead] at beyond below
  rw [UInt64.lt_iff_toNat_lt, UInt64.toNat_sub_of_le _ _ beyond] at below
  omega

/-- A call is in order exactly when the number is not below the last pruning. -/
theorem prunes_iff {op : PruneOp} (returns : call op engine = some (targets, after))
    : Prunes ⟨engine, op, targets, after⟩
      ↔ ∀ blockNumber ∈ op.newHead,
          engine.config.mode = .archive ∨ engine.lastPruneBlock ≤ blockNumber := by
  cases op with
  | onNewBlock blockNumber =>
      constructor
      · intro prunes number isHead
        obtain rfl := Option.some.inj isHead
        exact checkedOnNewBlock_isSome.mp (prunes blockNumber rfl).1
      · intro above number same
        obtain rfl := PruneOp.onNewBlock.inj same
        exact ⟨checkedOnNewBlock_isSome.mpr (above blockNumber rfl),
          outsideWindow_onNewBlock returns⟩
  | enqueueBlock blockNumber blockHash =>
      exact iff_of_true (fun _ other => nomatch other) (fun _ none => nomatch none)
  | onBlockPruned blockNumber =>
      exact iff_of_true (fun _ other => nomatch other) (fun _ none => nomatch none)

/-- A call notes the number at which it prunes. -/
theorem lastPruneBlock_call {op : PruneOp} (full : engine.config.mode ≠ .archive)
    (returns : call op engine = some (targets, after))
    : after.lastPruneBlock
      = match op.newHead with
        | none => engine.lastPruneBlock
        | some number =>
            if number - engine.lastPruneBlock < engine.config.intervalBlocks then
              engine.lastPruneBlock
            else number := by
  cases op with
  | enqueueBlock blockNumber blockHash =>
      obtain ⟨rfl, rfl⟩ := Prod.mk.inj (Option.some.inj returns)
      rfl
  | onBlockPruned blockNumber =>
      obtain ⟨rfl, rfl⟩ := Prod.mk.inj (Option.some.inj returns)
      rfl
  | onNewBlock blockNumber =>
      rcases onNewBlock_cases returns with ⟨archive | early, _, rfl⟩ | ⟨_, due, generates⟩
      · exact absurd archive full
      · exact (if_pos early).symm
      · have noted : after.lastPruneBlock = blockNumber := by
          rcases generatePruneTargets_cases generates with ⟨_, _, rfl⟩ | ⟨_, _, _, loops⟩
          · rfl
          · obtain ⟨_, _, _, _, rfl⟩ := pruneLoop_frame loops
            rfl
        rw [noted]
        exact (if_neg (UInt64.not_lt.mpr due)).symm

-----------------------------------------------------------------------------------------
-- Runs
-----------------------------------------------------------------------------------------

/-- By induction on the operations: the last pruning is the one that the numbers tell. -/
theorem neverBelow_iff {ops : List PruneOp} (full : engine.config.mode ≠ .archive)
    : (∀ turn ∈ CallTrace.calls call ops engine, Prunes turn)
      ↔ NeverBelow engine.config.intervalBlocks engine.lastPruneBlock
          (ops.filterMap PruneOp.newHead) := by
  induction ops generalizing engine with
  | nil => simp [NeverBelow]
  | cons op rest ih =>
      obtain ⟨targets, after, returns⟩ := call_returns op engine
      have config := (call_safe returns).1
      have noted := lastPruneBlock_call full returns
      rw [CallTrace.calls_cons_some returns, List.forall_mem_cons, prunes_iff returns,
        ih (config ▸ full), config, noted]
      cases reports : op.newHead with
      | none =>
          rw [List.filterMap_cons_none reports]
          simp
      | some number =>
          rw [List.filterMap_cons_some reports, NeverBelow]
          simp [full]

/-- For every configuration and every sequence of operations: no subtraction underflows and
every target is outside the window of the number just passed, exactly when nothing is pruned
at all or no number is below the one at which pruning last ran.
-/
theorem pruningRegressions_run_iff (config : PruningConfig) (lowestBlock : UInt64)
    (ops : List PruneOp)
    : (∀ turn ∈ CallTrace.calls call ops (new config lowestBlock), Prunes turn)
      ↔ config.mode = .archive
        ∨ NeverBelow config.intervalBlocks 0 (ops.filterMap PruneOp.newHead) := by
  by_cases archive : config.mode = .archive
  · refine iff_of_true (fun turn member => ?_) (Or.inl archive)
    have same := (CallTrace.calls_invariant
      (fun engine : PruningEngine => engine.config = config)
      (fun _ _ _ _ same returns => (call_safe returns).1.trans same) rfl turn member).1
    exact (prunes_iff (CallTrace.call_of_mem member)).mpr fun _ _ => Or.inl (same ▸ archive)
  · rw [neverBelow_iff (show (new config lowestBlock).config.mode ≠ .archive from archive)]
    exact (or_iff_right archive).symm

/-- Block 20 is followed by block 15, to which a reorganization has lowered the head: the
interval underflows.
-/
theorem pruningRegressions_fails
    : ¬ ∀ (config : PruningConfig) (lowestBlock : UInt64) (ops : List PruneOp),
        ∀ turn ∈ CallTrace.calls call ops (new config lowestBlock), Prunes turn := by
  intro claimed
  have ordered :=
    (@neverBelow_iff (new .default 0) [.onNewBlock 20, .onNewBlock 15] (by decide)).mp
      (claimed _ _ _)
  exact absurd ordered (by decide)

end PruningEngine

end VeloChain
