import VeloChain.Primitives.Types

/-! Chain data pruning: which old blocks may be deleted.
The engine follows the chain head and returns, in batches, the blocks that have left the
retention window: queued ones as long as there are any, then one number after another.
-/

namespace VeloChain

inductive PruningMode
  | archive
  | keepRecent (keep : UInt64)
  | lightPrune (keep : UInt64)
  deriving DecidableEq

/-- What data to prune for a block. -/
structure PruneTarget where
  blockNumber : UInt64
  blockHash : B256
  txHashes : List B256
  pruneHeader : Bool
  deriving DecidableEq

/-- Statistics about the pruning state. -/
structure PruneStats where
  totalPruned : UInt64
  lastPrunedBlock : UInt64
  lowestAvailable : UInt64
  chainHead : UInt64
  deriving DecidableEq

structure PruningConfig where
  mode : PruningMode
  batchSize : UInt64
  intervalBlocks : UInt64
  deriving DecidableEq

def PruningConfig.default : PruningConfig :=
  { mode := .keepRecent 10000, batchSize := 100, intervalBlocks := 10 }

/-- The pruning engine. -/
structure PruningEngine where
  config : PruningConfig
  chainHead : UInt64
  lowestBlock : UInt64
  stats : PruneStats
  pendingQueue : List (UInt64 × B256)
  lastPruneBlock : UInt64
  deriving DecidableEq

/-- Get the retention limit (number of blocks to keep). -/
def PruningMode.retentionLimit : PruningMode → Option UInt64
  | .archive => none
  | .keepRecent keep | .lightPrune keep => some keep

/-- Whether the headers go with the other data. -/
def PruningMode.prunesHeaders : PruningMode → Bool
  | .keepRecent _ => true
  | _ => false

namespace PruningEngine

/-- Create a new pruning engine. -/
def new (config : PruningConfig) (lowestBlock : UInt64) : PruningEngine :=
  { config
    chainHead := lowestBlock
    lowestBlock
    stats :=
      { totalPruned := 0, lastPrunedBlock := 0, lowestAvailable := lowestBlock, chainHead := 0 }
    pendingQueue := []
    lastPruneBlock := 0 }

/-- A target with the hash as far as it is known; the caller fills in the rest. -/
def targetOf (engine : PruningEngine) (blockNumber : UInt64) (blockHash : B256) : PruneTarget :=
  { blockNumber, blockHash, txHashes := [], pruneHeader := engine.config.mode.prunesHeaders }

/-- One turn of the generating loop: the target it pushes and the engine it leaves, or nothing
where the loop ends.
-/
def pruneNext (cutoff : UInt64) (count : Nat) (engine : PruningEngine)
    : Option (PruneTarget × PruningEngine) :=
  if engine.lowestBlock < cutoff ∧ count < engine.config.batchSize.toNat then
    match engine.pendingQueue with
    | (num, hash) :: rest =>
        -- a queued block that is not ready yet stays at the front
        if num < cutoff then
          some
            (engine.targetOf num hash,
              { engine with pendingQueue := rest, lowestBlock := num + 1 })
        else none
    | [] =>
        some
          (engine.targetOf engine.lowestBlock 0,
            { engine with lowestBlock := engine.lowestBlock + 1 })
  else none

/-- The generating loop, if it ends within the given number of turns. -/
def pruneLoop (cutoff : UInt64) : Nat → Nat → PruningEngine
    → Option (List PruneTarget × PruningEngine)
  | 0, _, _ => none
  | turns + 1, count, engine =>
      match engine.pruneNext cutoff count with
      | none => some ([], engine)
      | some (target, next) =>
          (pruneLoop cutoff turns (count + 1) next).map
            (fun (targets, last) => (target :: targets, last))

/-- Generate prune targets for blocks outside the retention window. The loop is given one turn
more than the batch has places.
-/
def generatePruneTargets (engine : PruningEngine) : Option (List PruneTarget × PruningEngine) :=
  match engine.config.mode.retentionLimit with
  | none => some ([], engine)
  | some keep =>
      if engine.chainHead ≤ keep then some ([], engine)
      else
        engine.pruneLoop (engine.chainHead - keep) (engine.config.batchSize.toNat + 1) 0

/-- The engine with a new chain head. -/
def withHead (blockNumber : UInt64) (engine : PruningEngine) : PruningEngine :=
  { engine with
    chainHead := blockNumber
    stats := { engine.stats with chainHead := blockNumber } }

/-- Update the chain head and check if pruning should run. -/
def onNewBlock (blockNumber : UInt64) (engine : PruningEngine)
    : Option (List PruneTarget × PruningEngine) :=
  let engine := engine.withHead blockNumber
  if engine.config.mode = .archive then some ([], engine)
  else if blockNumber - engine.lastPruneBlock < engine.config.intervalBlocks then
    some ([], engine)
  else { engine with lastPruneBlock := blockNumber }.generatePruneTargets

/-- Record that a block has been successfully pruned. -/
def onBlockPruned (blockNumber : UInt64) (engine : PruningEngine) : PruningEngine :=
  { engine with
    stats :=
      { engine.stats with
        totalPruned := engine.stats.totalPruned + 1
        lastPrunedBlock := blockNumber
        lowestAvailable := engine.lowestBlock } }

/-- Enqueue a block for future pruning (when its hash is known). -/
def enqueueBlock (blockNumber : UInt64) (blockHash : B256) (engine : PruningEngine)
    : PruningEngine :=
  { engine with pendingQueue := engine.pendingQueue ++ [(blockNumber, blockHash)] }

/-- Check if a given block number is within the retention window. -/
def isRetained (blockNumber : UInt64) (engine : PruningEngine) : Bool :=
  match engine.config.mode.retentionLimit with
  | none => true
  | some keep => engine.chainHead < keep || blockNumber ≥ engine.chainHead - keep

/-- Estimate the number of blocks that can be pruned right now. -/
def prunableCount (engine : PruningEngine) : UInt64 :=
  match engine.config.mode.retentionLimit with
  | none => 0
  | some keep =>
      if engine.chainHead ≤ keep then 0
      else
        let cutoff := engine.chainHead - keep
        if cutoff < engine.lowestBlock then 0 else cutoff - engine.lowestBlock

end PruningEngine

/-- The operations that change the engine. -/
inductive PruneOp
  | enqueueBlock (blockNumber : UInt64) (blockHash : B256)
  | onNewBlock (blockNumber : UInt64)
  | onBlockPruned (blockNumber : UInt64)

namespace PruningEngine

/-- A call of the engine: the targets it returns and the engine after it. -/
def call : PruneOp → PruningEngine → Option (List PruneTarget × PruningEngine)
  | .enqueueBlock blockNumber blockHash, engine =>
      some ([], engine.enqueueBlock blockNumber blockHash)
  | .onNewBlock blockNumber, engine => engine.onNewBlock blockNumber
  | .onBlockPruned blockNumber, engine => some ([], engine.onBlockPruned blockNumber)

-----------------------------------------------------------------------------------------
-- The generating loop
-----------------------------------------------------------------------------------------

variable {engine after : PruningEngine} {cutoff : UInt64} {targets : List PruneTarget}

theorem toNat_succ_of_lt {number bound : UInt64} (below : number < bound)
    : (number + 1).toNat = number.toNat + 1 := by
  have := bound.toNat_lt
  rw [UInt64.lt_iff_toNat_lt] at below
  rw [UInt64.toNat_add, UInt64.toNat_one, Nat.mod_eq_of_lt (by omega)]

/-- What a turn that pushes a target has found: a queued block below the cutoff, or no queued
block at all.
-/
theorem pruneNext_cases {count : Nat} {target : PruneTarget}
    (pushes : engine.pruneNext cutoff count = some (target, after))
    : engine.lowestBlock < cutoff
      ∧ count < engine.config.batchSize.toNat
      ∧ ((∃ num hash rest,
            engine.pendingQueue = (num, hash) :: rest
            ∧ num < cutoff
            ∧ target = engine.targetOf num hash
            ∧ after = { engine with pendingQueue := rest, lowestBlock := num + 1 })
        ∨ engine.pendingQueue = []
          ∧ target = engine.targetOf engine.lowestBlock 0
          ∧ after = { engine with lowestBlock := engine.lowestBlock + 1 }) := by
  unfold pruneNext at pushes
  split at pushes
  next below =>
    refine ⟨below.1, below.2, ?_⟩
    split at pushes
    next num hash rest queued =>
      split at pushes
      next ready =>
        obtain ⟨rfl, rfl⟩ := Prod.mk.inj (Option.some.inj pushes)
        exact Or.inl ⟨num, hash, rest, queued, ready, rfl, rfl⟩
      next => simp at pushes
    next queued =>
      obtain ⟨rfl, rfl⟩ := Prod.mk.inj (Option.some.inj pushes)
      exact Or.inr ⟨queued, rfl, rfl⟩
  next => simp at pushes

/-- A turn pushes a block below the cutoff and changes queue and lowest block only. -/
theorem pruneNext_frame {count : Nat} {target : PruneTarget}
    (pushes : engine.pruneNext cutoff count = some (target, after))
    : target.blockNumber < cutoff
      ∧ ∃ pendingQueue,
          after = { engine with pendingQueue, lowestBlock := target.blockNumber + 1 } := by
  obtain ⟨below, _, ⟨num, hash, rest, _, ready, rfl, rfl⟩ | ⟨_, rfl, rfl⟩⟩ :=
    pruneNext_cases pushes
  · exact ⟨ready, rest, rfl⟩
  · exact ⟨below, engine.pendingQueue, rfl⟩

/-- What the loop returns: nothing where it ends at once, else the target of its first turn
before those of the others.
-/
theorem pruneLoop_cases {turns count : Nat}
    (returns : engine.pruneLoop cutoff turns count = some (targets, after))
    : engine.pruneNext cutoff count = none ∧ targets = [] ∧ after = engine
      ∨ ∃ turns' target next rest,
          engine.pruneNext cutoff count = some (target, next)
          ∧ next.pruneLoop cutoff turns' (count + 1) = some (rest, after)
          ∧ targets = target :: rest := by
  cases turns with
  | zero => simp [pruneLoop] at returns
  | succ turns' =>
      unfold pruneLoop at returns
      cases pushes : engine.pruneNext cutoff count with
      | none =>
          simp only [pushes] at returns
          obtain ⟨rfl, rfl⟩ := Prod.mk.inj (Option.some.inj returns)
          exact Or.inl ⟨rfl, rfl, rfl⟩
      | some pushed =>
          simp only [pushes] at returns
          obtain ⟨⟨rest, last⟩, later, same⟩ := Option.map_eq_some_iff.mp returns
          obtain ⟨rfl, rfl⟩ := Prod.mk.inj same
          exact Or.inr ⟨turns', pushed.1, pushed.2, rest, rfl, later, rfl⟩

/-- The loop ends: with one turn more than the batch has places left it returns, and further
turns change nothing. By induction on the places.
-/
theorem pruneLoop_returns {places count : Nat}
    (enough : engine.config.batchSize.toNat ≤ count + places)
    : ∃ targets after,
        ∀ more, engine.pruneLoop cutoff (places + 1 + more) count = some (targets, after) := by
  induction places generalizing engine count with
  | zero =>
      refine ⟨[], engine, fun more => ?_⟩
      have full : engine.pruneNext cutoff count = none := by
        unfold pruneNext
        rw [if_neg]
        rintro ⟨_, below⟩
        omega
      rw [Nat.add_right_comm, pruneLoop, full]
  | succ places ih =>
      cases pushes : engine.pruneNext cutoff count with
      | none =>
          refine ⟨[], engine, fun more => ?_⟩
          rw [Nat.add_right_comm, pruneLoop, pushes]
      | some pushed =>
          obtain ⟨target, next⟩ := pushed
          obtain ⟨_, pendingQueue, rfl⟩ := pruneNext_frame pushes
          obtain ⟨rest, last, later⟩ := @ih
            { engine with pendingQueue, lowestBlock := target.blockNumber + 1 } (count + 1)
            (by simp only; omega)
          refine ⟨target :: rest, last, fun more => ?_⟩
          have again : places + 1 + 1 + more = places + 1 + more + 1 := by omega
          rw [again, pruneLoop, pushes]
          simp only [later more, Option.map_some]

/-- The induction over the turns of the loop: it ends where a turn pushes nothing, and a turn
before that takes the front of the queue, or the lowest block where nothing is queued.
-/
theorem pruneLoop_induction
    {motive : PruningEngine → Nat → List PruneTarget → PruningEngine → Prop}
    (ends
      : ∀ engine count,
          engine.pruneNext cutoff count = none
          → motive engine count [] engine)
    (queued
      : ∀ (engine after : PruningEngine) turns count num hash queue targets,
          engine.pendingQueue = (num, hash) :: queue
          → num < cutoff
          → count < engine.config.batchSize.toNat
          → { engine with pendingQueue := queue, lowestBlock := num + 1 }.pruneLoop cutoff turns
              (count + 1)
            = some (targets, after)
          → motive { engine with pendingQueue := queue, lowestBlock := num + 1 } (count + 1)
              targets after
          → motive engine count (engine.targetOf num hash :: targets) after)
    (lowest
      : ∀ (engine after : PruningEngine) turns count targets,
          engine.pendingQueue = []
          → engine.lowestBlock < cutoff
          → count < engine.config.batchSize.toNat
          → { engine with lowestBlock := engine.lowestBlock + 1 }.pruneLoop cutoff turns
              (count + 1)
            = some (targets, after)
          → motive { engine with lowestBlock := engine.lowestBlock + 1 } (count + 1) targets after
          → motive engine count (engine.targetOf engine.lowestBlock 0 :: targets) after)
    {turns count : Nat} (returns : engine.pruneLoop cutoff turns count = some (targets, after))
    : motive engine count targets after := by
  induction targets generalizing engine turns count with
  | nil =>
      rcases pruneLoop_cases returns with ⟨pushes, _, rfl⟩ | ⟨_, _, _, _, _, _, impossible⟩
      · exact ends after count pushes
      · simp at impossible
  | cons first others ih =>
      rcases pruneLoop_cases returns with ⟨_, impossible, _⟩
        | ⟨turns', target, next, rest, pushes, later, same⟩
      · simp at impossible
      · obtain ⟨rfl, rfl⟩ := List.cons.inj same
        obtain ⟨below, room, ⟨num, hash, queue, front, ready, rfl, rfl⟩ | ⟨front, rfl, rfl⟩⟩ :=
          pruneNext_cases pushes
        · exact queued engine after turns' count num hash queue others front ready room later
            (ih later)
        · exact lowest engine after turns' count others front below room later (ih later)

/-- The loop pushes blocks below the cutoff, no more than the batch has places left, and
changes queue and lowest block only. By induction on its turns.
-/
theorem pruneLoop_frame {turns count : Nat}
    (returns : engine.pruneLoop cutoff turns count = some (targets, after))
    : (∀ target ∈ targets, target.blockNumber < cutoff)
      ∧ targets.length ≤ engine.config.batchSize.toNat - count
      ∧ ∃ pendingQueue lowestBlock, after = { engine with pendingQueue, lowestBlock } := by
  refine pruneLoop_induction
    (motive := fun engine count targets after =>
      (∀ target ∈ targets, target.blockNumber < cutoff)
      ∧ targets.length ≤ engine.config.batchSize.toNat - count
      ∧ ∃ pendingQueue lowestBlock, after = { engine with pendingQueue, lowestBlock })
    ?ends ?queued ?lowest returns
  case ends =>
    intro engine count _
    exact ⟨by simp, Nat.zero_le _, engine.pendingQueue, engine.lowestBlock, rfl⟩
  case queued =>
    rintro engine _ turns count num hash queue targets _ ready room _
      ⟨others, places, pendingQueue, lowestBlock, rfl⟩
    refine ⟨List.forall_mem_cons.mpr ⟨ready, others⟩, ?_, pendingQueue, lowestBlock, rfl⟩
    simp only [List.length_cons] at places ⊢
    omega
  case lowest =>
    rintro engine _ turns count targets _ below room _
      ⟨others, places, pendingQueue, lowestBlock, rfl⟩
    refine ⟨List.forall_mem_cons.mpr ⟨below, others⟩, ?_, pendingQueue, lowestBlock, rfl⟩
    simp only [List.length_cons] at places ⊢
    omega

/-- What a generation does: nothing within the window, and a loop with its cutoff where the
chain has left it.
-/
theorem generatePruneTargets_cases
    (returns : engine.generatePruneTargets = some (targets, after))
    : (∀ keep, engine.config.mode.retentionLimit = some keep → engine.chainHead ≤ keep)
        ∧ targets = []
        ∧ after = engine
      ∨ ∃ keep,
          engine.config.mode.retentionLimit = some keep
          ∧ keep < engine.chainHead
          ∧ engine.pruneLoop (engine.chainHead - keep) (engine.config.batchSize.toNat + 1) 0
            = some (targets, after) := by
  unfold generatePruneTargets at returns
  split at returns
  next unbounded =>
    obtain ⟨rfl, rfl⟩ := Prod.mk.inj (Option.some.inj returns)
    exact Or.inl ⟨fun keep limit => by simp [unbounded] at limit, rfl, rfl⟩
  next keep limit =>
    split at returns
    next within =>
      obtain ⟨rfl, rfl⟩ := Prod.mk.inj (Option.some.inj returns)
      refine Or.inl ⟨fun other isLimit => ?_, rfl, rfl⟩
      exact Option.some.inj (limit.symm.trans isLimit) ▸ within
    next beyond => exact Or.inr ⟨keep, limit, UInt64.not_le.mp beyond, returns⟩

/-- A generation returns. -/
theorem generatePruneTargets_returns (engine : PruningEngine)
    : ∃ targets after, engine.generatePruneTargets = some (targets, after) := by
  unfold generatePruneTargets
  split
  next => exact ⟨[], engine, rfl⟩
  next keep _ =>
    split
    next => exact ⟨[], engine, rfl⟩
    next =>
      obtain ⟨targets, after, returns⟩ :=
        @pruneLoop_returns engine (engine.chainHead - keep) engine.config.batchSize.toNat 0
          (Nat.le_add_left _ _)
      exact ⟨targets, after, returns 0⟩

/-- What a new block does: it sets the head, and where the interval of a node that prunes has
passed, it is noted and a generation follows.
-/
theorem onNewBlock_cases {blockNumber : UInt64}
    (returns : engine.onNewBlock blockNumber = some (targets, after))
    : (engine.config.mode = .archive
          ∨ blockNumber - engine.lastPruneBlock < engine.config.intervalBlocks)
        ∧ targets = []
        ∧ after = engine.withHead blockNumber
      ∨ engine.config.mode ≠ .archive
        ∧ engine.config.intervalBlocks ≤ blockNumber - engine.lastPruneBlock
        ∧ { engine.withHead blockNumber with
            lastPruneBlock := blockNumber }.generatePruneTargets
          = some (targets, after) := by
  unfold onNewBlock at returns
  simp only at returns
  split at returns
  next archive =>
    obtain ⟨rfl, rfl⟩ := Prod.mk.inj (Option.some.inj returns)
    exact Or.inl ⟨Or.inl archive, rfl, rfl⟩
  next full =>
    split at returns
    next early =>
      obtain ⟨rfl, rfl⟩ := Prod.mk.inj (Option.some.inj returns)
      exact Or.inl ⟨Or.inr early, rfl, rfl⟩
    next due => exact Or.inr ⟨full, UInt64.not_lt.mp due, returns⟩

/-- Every call returns. -/
theorem call_returns (op : PruneOp) (engine : PruningEngine)
    : ∃ targets after, call op engine = some (targets, after) := by
  cases op with
  | enqueueBlock blockNumber blockHash => exact ⟨[], _, rfl⟩
  | onBlockPruned blockNumber => exact ⟨[], _, rfl⟩
  | onNewBlock blockNumber =>
      unfold call onNewBlock
      simp only
      split
      next => exact ⟨[], _, rfl⟩
      next =>
        split
        next => exact ⟨[], _, rfl⟩
        next => exact generatePruneTargets_returns _

end PruningEngine

end VeloChain
