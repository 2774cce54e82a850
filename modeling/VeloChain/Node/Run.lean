import VeloChain.Node.BlockProducer
import VeloChain.Node.Growth
import VeloChain.Node.Reorg

/-! Runs of a node: imports, reorganizations, productions, pool additions, reads and restarts.
A restart keeps the database and the configuration; everything else starts afresh.
-/

namespace VeloChain

variable {F : Type} [F32 F]

/-- What can happen to a running node. Each step brings the clock and the orders of the walks
over hash maps that it needs.
-/
inductive NodeStep (F : Type)
  | importBlock (block : Block) (order : BlockOrder F)
  | reorg (forkPoint : UInt64) (newBlocks : List (Block × BlockOrder F))
  | produce (now : UInt64) (senders : IterationOrder Address SenderQueue)
      (order : BlockOrder F)
  | prepare (now : UInt64)
  | addTransaction (tx : SignedTransaction)
  | readAccount (address : Address)
  | restart

namespace Chain

variable (host : Host F)

/-- The game world a starting node restores, or a fresh one. -/
def restoredWorld (db : Database) (seed : UInt64) : GameWorld F :=
  match db.getGameState "world".toUTF8.toList with
  | none => .new host.crypto.keccak256 seed
  | some data =>
      match GameWorld.fromState host.crypto.keccak256 host.ecs data seed with
      | .ok world => world
      | .error _ => .new host.crypto.keccak256 seed

/-- A new process over the same database and configuration. -/
def restart (chain : Chain F) : Chain F :=
  ((Chain.new chain.db .new (restoredWorld host chain.db chain.gameWorld.seed) .new
    { chain.consensus with gameTick := 0 } chain.chainId).restoreHead host).2

/-- A call of `prepareHeader` for the current head, as block production makes it. -/
def prepareOnly (now : UInt64) (chain : Chain F) : Chain F :=
  match chain.head with
  | none => chain
  | some parent =>
      { chain with
        consensus := (chain.consensus.prepareHeader host.crypto now parent).2 }

/-- The node after a step, whether it fails or not. -/
def step (chain : Chain F) : NodeStep F → Chain F
  | .importBlock block order => (chain.applyBlock host order block).2
  | .reorg forkPoint newBlocks => (chain.executeReorg host forkPoint newBlocks).2
  | .produce now senders order => (chain.produceBlock host now senders order).2
  | .prepare now => chain.prepareOnly host now
  | .addTransaction tx =>
      { chain with txpool := (chain.txpool.addTransaction host.crypto tx).2 }
  | .readAccount address =>
      { chain with state := (chain.state.getAccount host.account chain.db address).2 }
  | .restart => chain.restart host

/-- The node after a run of steps. -/
def runSteps (steps : List (NodeStep F)) (chain : Chain F) : Chain F :=
  steps.foldl (step host) chain

/-- What every step keeps holds after every run. -/
theorem runSteps_invariant {host : Host F} (inv : Chain F → Prop) {steps : List (NodeStep F)}
    {chain : Chain F} (keeps : ∀ state, ∀ s ∈ steps, inv state → inv (state.step host s))
    (start : inv chain)
    : inv (chain.runSteps host steps) := by
  unfold runSteps
  induction steps generalizing chain with
  | nil => exact start
  | cons s rest ih =>
      exact ih (fun state later member => keeps state later (List.mem_cons_of_mem s member))
        (keeps chain s List.mem_cons_self start)

variable {host}

/-- A restart keeps database and configuration, and looks for the head. -/
theorem restart_frame (chain : Chain F)
    : ∃ head,
        chain.restart host
        = { Chain.new chain.db .new (restoredWorld host chain.db chain.gameWorld.seed) .new
              { chain.consensus with gameTick := 0 } chain.chainId with
            head } :=
  restoreHead_frame _

theorem executeReorg_config (forkPoint : UInt64) (newBlocks : List (Block × BlockOrder F))
    (chain : Chain F)
    : (chain.executeReorg host forkPoint newBlocks).2.consensus = chain.consensus
      ∧ (chain.executeReorg host forkPoint newBlocks).2.chainId = chain.chainId := by
  refine executeReorg_invariant
    (fun state => state.consensus = chain.consensus ∧ state.chainId = chain.chainId)
    ⟨rfl, rfl⟩ ?_ ?_ ?_
  · intro state number _ held
    obtain ⟨txpool, frame⟩ := @revertBlock_frame F host number state
    rw [frame]
    exact held
  · intro state block held _ _
    exact held
  · intro state entry _ held
    obtain ⟨consensus, chainId⟩ := @applyBlock_config F _ host entry.2 entry.1 state
    exact ⟨consensus.trans held.1, chainId.trans held.2⟩

/-- Producing a block is a call of `prepareHeader`, at most followed by a block application. The
block is the result where its application succeeds.
-/
theorem produceBlock_cases (now : UInt64) (senders : IterationOrder Address SenderQueue)
    (order : BlockOrder F) (chain : Chain F)
    : (chain.produceBlock host now senders order).2 = chain.prepareOnly host now
      ∨ ∃ block,
          (chain.produceBlock host now senders order).2
            = ((chain.prepareOnly host now).applyBlock host order block).2
          ∧ (((chain.prepareOnly host now).applyBlock host order block).1 = .ok ()
            → (chain.produceBlock host now senders order).1 = .ok block) := by
  unfold produceBlock prepareOnly
  cases chain.head with
  | none => exact Or.inl rfl
  | some parent =>
      rcases prepared : chain.consensus.prepareHeader host.crypto now parent
        with ⟨_ | header, consensus⟩
      · simp only [prepared, true_or]
      · simp only [prepared]
        split
        next => exact Or.inl rfl
        next sealed _ =>
          refine Or.inr ⟨sealed, ?_⟩
          split
          next call =>
            rw [call]
            exact ⟨rfl, fun applied => absurd applied (by simp)⟩
          next call =>
            rw [call]
            exact ⟨rfl, fun _ => rfl⟩

/-- Producing a block changes the consensus engine only by its call of `prepareHeader`. -/
theorem produceBlock_consensus (now : UInt64) (senders : IterationOrder Address SenderQueue)
    (order : BlockOrder F) (chain : Chain F)
    : (chain.produceBlock host now senders order).2.consensus
      = (chain.prepareOnly host now).consensus := by
  rcases @produceBlock_cases F _ host now senders order chain with same | ⟨block, same, _⟩
  · rw [same]
  · rw [same]
    exact (applyBlock_config order block _).1

end Chain

end VeloChain
