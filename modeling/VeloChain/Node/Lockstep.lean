import VeloChain.Node.Growth
import VeloChain.Node.Refinement

/-! Two nodes that import the same blocks.
Nodes with the same accounts and the same game world keep them the same, although each walks
over its hash maps in its own orders. With the same head and consensus engine they accept the
same blocks, too.
-/

namespace VeloChain.Chain

variable {F : Type} [F32 F] {host : Host F}

/-- Two nodes with the same accounts, game world and EVM chain id, whose stored accounts can be
read.
-/
structure SameLedger (host : Host F) (left right : Chain F) : Prop where
  accounts : left.accounts host = right.accounts host
  gameWorld : left.gameWorld = right.gameWorld
  chainId : left.evm.chainId = right.evm.chainId
  readable : left.AccountsReadable host ∧ right.AccountsReadable host
  wellformed : left.gameWorld.ecs.Wellformed

omit [F32 F] in
theorem SameLedger.refl {chain : Chain F} (readable : chain.AccountsReadable host)
    (wellformed : chain.gameWorld.ecs.Wellformed)
    : SameLedger host chain chain :=
  ⟨rfl, rfl, rfl, ⟨readable, readable⟩, wellformed⟩

omit [F32 F] in
/-- Neither pass over a block changes the chain id of the EVM. -/
theorem chainId_runGame {db : Database} (block : Block) (execution : Execution)
    : (execution.runGame host db block).2.evm.chainId = execution.evm.chainId := by
  refine Loop.run_invariant (fun (x : Execution) => x.evm.chainId = execution.evm.chainId) ?_ rfl
  intro tx _ x same
  obtain ⟨_, _, evm⟩ := Execution.processGameTx_refines host db block tx x
  rw [evm]
  exact same

theorem Accepted.chainId {order : BlockOrder F} {block : Block} {chain : Chain F}
    (accepted : Accepted host order block chain)
    : accepted.result.evm.chainId = chain.evm.chainId := by
  obtain ⟨evmTxs, _⟩ := Partition.ofBlock_parts accepted.partitioned
  have executes := accepted.executes
  rw [evmTxs] at executes
  have started := (Execution.start_refines host chain.db block.evmTxs
    accepted.parts.totalGasUsed chain.evm chain.state).2
  have executed := (Execution.runEvm_refines host chain.db block
    (fun _ member => block.isGameAction_of_mem_evmTxs member) started).2.2
  rw [executes] at executed
  have processed := @chainId_runGame F host chain.db block
    (accepted.executed.flush host chain.db order.evmAccounts)
  rw [accepted.processes] at processed
  exact processed.trans executed

/-- From one game world, one block leads to one game world in every order of the walks. -/
theorem Accepted.world_eq {left right : Chain F} {block : Block} {order order' : BlockOrder F}
    (accepted : Accepted host order block left) (accepted' : Accepted host order' block right)
    (same : left.gameWorld = right.gameWorld) (wellformed : left.gameWorld.ecs.Wellformed)
    : accepted.world = accepted'.world := by
  obtain ⟨_, actions⟩ := Partition.ofBlock_parts accepted.partitioned
  obtain ⟨_, actions'⟩ := Partition.ofBlock_parts accepted'.partitioned
  have ticks := accepted.ticks
  have ticks' := accepted'.ticks
  rw [actions] at ticks
  rw [actions', ← same] at ticks'
  have state := @GameWorld.SameState.tick F _ host.crypto host.ecs left.gameWorld
    left.gameWorld ⟨⟨rfl, rfl, rfl⟩, rfl⟩ rfl wellformed order.tick order'.tick
    (gameEntries host.crypto block)
  have seed := @GameWorld.seed_tick F _ host.crypto host.ecs order.tick
    (gameEntries host.crypto block) left.gameWorld
  have seed' := @GameWorld.seed_tick F _ host.crypto host.ecs order'.tick
    (gameEntries host.crypto block) left.gameWorld
  simp only [gameEntries] at state seed seed'
  rw [ticks] at state seed
  rw [ticks'] at state seed'
  exact GameWorld.ext state.ecs state.currentTick (seed.trans seed'.symm) state.spawnManager
    state.eventManager

/-- Importing one block on both nodes keeps them the same, whatever the orders of the walks. -/
theorem SameLedger.applyBlock (sound : host.account.RoundTrips) {left right : Chain F}
    (same : SameLedger host left right) {block : Block} {order order' : BlockOrder F}
    {next next' : Chain F} (applied : left.applyBlock host order block = (.ok (), next))
    (applied' : right.applyBlock host order' block = (.ok (), next'))
    : SameLedger host next next' := by
  obtain ⟨readable, readable'⟩ := same.readable
  have later := @AccountsReadable.applyBlock F host _ sound order block left readable
  have later' := @AccountsReadable.applyBlock F host _ sound order' block right readable'
  rw [applied] at later
  rw [applied'] at later'
  obtain ⟨accepted, rfl⟩ := applyBlock_ok_iff.mp applied
  obtain ⟨accepted', rfl⟩ := applyBlock_ok_iff.mp applied'
  have ticked := @GameWorld.wellformed_tick F _ host.crypto host.ecs order.tick
    accepted.parts.gameActions left.gameWorld same.wellformed
  rw [accepted.ticks] at ticked
  refine ⟨?_, accepted.world_eq accepted' same.gameWorld same.wellformed, ?_, ⟨later, later'⟩,
    ticked⟩
  · rw [accepted.accounts_result sound readable.accounts,
      accepted'.accounts_result sound readable'.accounts, same.accounts, same.chainId]
  · exact accepted.chainId.trans (same.chainId.trans accepted'.chainId.symm)

/-- Blocks with the orders of one of two nodes. -/
def onLeft (blocks : List (Block × BlockOrder F × BlockOrder F))
    : List (Block × BlockOrder F) :=
  blocks.map (fun entry => (entry.1, entry.2.1))

/-- The same blocks with the orders of the other node. -/
def onRight (blocks : List (Block × BlockOrder F × BlockOrder F))
    : List (Block × BlockOrder F) :=
  blocks.map (fun entry => (entry.1, entry.2.2))

/-- Two nodes that import the same blocks stay the same, by induction on the blocks. -/
theorem SameLedger.run (sound : host.account.RoundTrips)
    {blocks : List (Block × BlockOrder F × BlockOrder F)} {left right final final' : Chain F}
    (same : SameLedger host left right)
    (applied : Loop.run (importBlock host) (onLeft blocks) left = (.ok (), final))
    (applied' : Loop.run (importBlock host) (onRight blocks) right = (.ok (), final'))
    : SameLedger host final final' := by
  induction blocks generalizing left right with
  | nil =>
      obtain rfl := (Prod.mk.inj applied).2
      obtain rfl := (Prod.mk.inj applied').2
      exact same
  | cons entry rest ih =>
      obtain ⟨next, imported, applied⟩ := Loop.run_cons_ok_iff.mp applied
      obtain ⟨next', imported', applied'⟩ := Loop.run_cons_ok_iff.mp applied'
      exact ih (same.applyBlock sound imported imported') applied applied'

-----------------------------------------------------------------------------------------
-- Rejected blocks
-----------------------------------------------------------------------------------------

/-- Two nodes with the same ledger, head and consensus engine. -/
structure SameNode (host : Host F) (left right : Chain F) : Prop
    extends SameLedger host left right where
  head : left.head = right.head
  consensus : left.consensus = right.consensus

/-- Two executions, each on its own database, have the same accounts and EVM chain id. -/
structure SamePass (host : Host F) (db db' : Database) (left right : Execution) : Prop where
  ledger : left.ledger host db = right.ledger host db'
  chainId : left.evm.chainId = right.evm.chainId

/-- A block ends alike on two nodes: with the same result, accounts, game world and head. -/
structure SameOutcome (host : Host F) (left right : Except NodeError Unit × Chain F)
    : Prop where
  result : left.1 = right.1
  accounts : left.2.accounts host = right.2.accounts host
  gameWorld : left.2.gameWorld = right.2.gameWorld
  head : left.2.head = right.2.head

/-- The outcomes of importing blocks one after another, whether they are accepted or not. -/
def imports (host : Host F)
    : List (Block × BlockOrder F) → Chain F → List (Except NodeError Unit × Chain F)
  | [], _ => []
  | entry :: rest, chain =>
      importBlock host entry chain :: imports host rest (importBlock host entry chain).2

section Passes

variable {left right : Chain F} {block : Block}

omit [F32 F] in
/-- The EVM pass ends alike. -/
theorem SameLedger.runEvm (same : SameLedger host left right) {evmTxs : List SignedTransaction}
    (isEvm : evmTxs = block.evmTxs) (gasUsed : UInt64)
    : (Execution.runEvm host left.db block evmTxs
          (.start host left.db evmTxs gasUsed left.evm left.state)).1
        = (Execution.runEvm host right.db block evmTxs
            (.start host right.db evmTxs gasUsed right.evm right.state)).1
      ∧ SamePass host left.db right.db
          (Execution.runEvm host left.db block evmTxs
            (.start host left.db evmTxs gasUsed left.evm left.state)).2
          (Execution.runEvm host right.db block evmTxs
            (.start host right.db evmTxs gasUsed right.evm right.state)).2
      ∧ ((Execution.runEvm host left.db block evmTxs
          (.start host left.db evmTxs gasUsed left.evm left.state)).2.ledger host
            left.db).view.Readable := by
  subst isEvm
  have kept (chain : Chain F)
      : (Execution.runEvm host chain.db block block.evmTxs
            (.start host chain.db block.evmTxs gasUsed chain.evm chain.state)).2.evm.chainId
          = chain.evm.chainId :=
    (Execution.runEvm_refines host chain.db block
      (fun _ member => block.isGameAction_of_mem_evmTxs member)
      (Execution.start_refines host chain.db block.evmTxs gasUsed chain.evm chain.state).2).2.2
  obtain ⟨result, ledger⟩ := @Execution.runEvm_start F host left.db block gasUsed left.evm
    left.state
  obtain ⟨result', ledger'⟩ := @Execution.runEvm_start F host right.db block gasUsed right.evm
    right.state
  have readable : (Ledger.runEvm host left.evm.chainId block (left.accounts host)).view.Readable :=
    fun address => (sameReadable_runEvm _ _ address).mpr (same.readable.1.accounts address)
  rw [Ledger.runEvm, Chain.accounts, ← ledger] at readable
  have accounts := same.accounts
  unfold Chain.accounts at accounts
  rw [accounts, same.chainId] at result ledger
  refine ⟨result.trans result'.symm, ⟨ledger.trans ledger'.symm, ?_⟩, readable⟩
  rw [kept, kept, same.chainId]

omit [F32 F] in
/-- The flush and the game pass end alike, where the accounts of both can be read. -/
theorem SamePass.runGame {db db' : Database} {x x' : Execution}
    (same : SamePass host db db' x x') (readable : (x.ledger host db).view.Readable)
    (order order' : IterationOrder Address DbAccount)
    : ((x.flush host db order).runGame host db block).1
        = ((x'.flush host db' order').runGame host db' block).1
      ∧ SamePass host db db' ((x.flush host db order).runGame host db block).2
          ((x'.flush host db' order').runGame host db' block).2 := by
  have flushed := Execution.flush_refines host db order x (fun address _ => readable address)
  have flushed' := Execution.flush_refines host db' order' x' (by
    intro address _
    rw [same.ledger] at readable
    exact readable address)
  obtain ⟨result, ledger⟩ := Execution.runGame_refines host db block (x.flush host db order)
  obtain ⟨result', ledger'⟩ :=
    Execution.runGame_refines host db' block (x'.flush host db' order')
  rw [flushed, same.ledger] at result ledger
  rw [flushed'] at result' ledger'
  refine ⟨result.trans result'.symm, ledger.trans ledger'.symm, ?_⟩
  rw [chainId_runGame, chainId_runGame]
  exact same.chainId

omit [F32 F] in
/-- What a failed pass leaves behind is the same on both nodes. -/
theorem SameNode.stopped (same : SameNode host left right) {x x' : Execution}
    (pass : SamePass host left.db right.db x x')
    : SameNode host { left with evm := x.evm, state := x.state }
        { right with evm := x'.evm, state := x'.state } :=
  { accounts := congrArg Ledger.view pass.ledger
    gameWorld := same.gameWorld
    chainId := pass.chainId
    readable := same.readable
    wellformed := same.wellformed
    head := same.head
    consensus := same.consensus }

/-- A tick of one world ends alike in every order of the walks. -/
theorem tick_ends_alike {world : GameWorld F} (wellformed : world.ecs.Wellformed)
    (order order' : TickOrder F) (actions : List (String × GameAction))
    : (world.tick host.crypto host.ecs order actions).1.map (fun _ => ())
        = (world.tick host.crypto host.ecs order' actions).1.map (fun _ => ())
      ∧ (world.tick host.crypto host.ecs order actions).2
        = (world.tick host.crypto host.ecs order' actions).2 := by
  have state := @GameWorld.SameState.tick F _ host.crypto host.ecs world world
    ⟨⟨rfl, rfl, rfl⟩, rfl⟩ rfl wellformed order order' actions
  refine ⟨(@GameWorld.SameEntities.tick F _ host.crypto host.ecs world world ⟨rfl, rfl, rfl⟩
    wellformed order order' actions).1, ?_⟩
  exact GameWorld.ext state.ecs state.currentTick
    ((GameWorld.seed_tick order actions world).trans
      (GameWorld.seed_tick order' actions world).symm)
    state.spawnManager state.eventManager

/-- The end of a block application, after both passes. -/
def afterPasses (host : Host F) (order : BlockOrder F) (block : Block)
    (actions : List (String × GameAction)) (x : Execution) (chain : Chain F)
    : Except NodeError Unit × Chain F :=
  match chain.gameWorld.tick host.crypto host.ecs order.tick actions with
  | (.error e, gameWorld) =>
      (.error (.gameEngine e), { chain with evm := x.evm, state := x.state, gameWorld })
  | (.ok _, gameWorld) => (.ok (), chain.finalize host order block x gameWorld)

/-- After passes that ended alike, the tick and the writes end alike. -/
theorem SameNode.afterPasses (sound : host.account.RoundTrips)
    (same : SameNode host left right) (block : Block) (order order' : BlockOrder F)
    (actions : List (String × GameAction)) {x x' : Execution}
    (pass : SamePass host left.db right.db x x')
    : (left.afterPasses host order block actions x).1
        = (right.afterPasses host order' block actions x').1
      ∧ SameNode host (left.afterPasses host order block actions x).2
          (right.afterPasses host order' block actions x').2 := by
  have stopped := same.stopped pass
  obtain ⟨result, next⟩ :=
    @tick_ends_alike F _ host left.gameWorld same.wellformed order.tick order'.tick actions
  have ticked := @GameWorld.wellformed_tick F _ host.crypto host.ecs order.tick actions
    left.gameWorld same.wellformed
  unfold Chain.afterPasses
  rw [← same.gameWorld]
  generalize left.gameWorld.tick host.crypto host.ecs order.tick actions = tick
    at result next ticked ⊢
  generalize left.gameWorld.tick host.crypto host.ecs order'.tick actions = tick'
    at result next ⊢
  obtain ⟨outcome, world⟩ := tick
  obtain ⟨outcome', world'⟩ := tick'
  simp only at result next ticked
  subst next
  cases outcome with
  | error e =>
      cases outcome' with
      | error e' =>
          obtain rfl := Except.error.inj result
          exact ⟨rfl, { stopped with gameWorld := rfl, wellformed := ticked }⟩
      | ok root => cases result
  | ok root =>
      cases outcome' with
      | error e' => cases result
      | ok root' =>
          refine ⟨rfl, { stopped with
            accounts := ?_, gameWorld := rfl, readable := ?_, wellformed := ticked
            head := rfl }⟩
          · rw [accounts_finalize order block x world left sound,
              accounts_finalize order' block x' world right sound]
            exact congrArg Ledger.view pass.ledger
          · exact ⟨same.readable.1.finalize order block x world sound,
              same.readable.2.finalize order' block x' world sound⟩

/-- A block ends alike on both nodes, whether it is accepted or not. -/
theorem SameNode.applyBlock (sound : host.account.RoundTrips)
    (same : SameNode host left right) (block : Block) (order order' : BlockOrder F)
    : (left.applyBlock host order block).1 = (right.applyBlock host order' block).1
      ∧ SameNode host (left.applyBlock host order block).2
          (right.applyBlock host order' block).2 := by
  have stopped {x x' : Execution} (pass : SamePass host left.db right.db x x') :=
    same.stopped pass
  have ended (actions : List (String × GameAction)) {x x' : Execution}
      (pass : SamePass host left.db right.db x x') :=
    same.afterPasses sound block order order' actions pass
  have evmPass {evmTxs : List SignedTransaction} (isEvm : evmTxs = block.evmTxs)
      (gasUsed : UInt64) := same.toSameLedger.runEvm isEvm gasUsed
  have sameHead := same.head
  have sameConsensus := same.consensus
  obtain ⟨db, state, world, txpool, consensus, evm, head, chainId⟩ := left
  obtain ⟨db', state', world', txpool', consensus', evm', head', chainId'⟩ := right
  simp only at stopped ended evmPass sameHead sameConsensus
  subst sameHead sameConsensus
  unfold Chain.applyBlock
  cases head with
  | none => exact ⟨rfl, same⟩
  | some parent =>
      simp only
      cases consensus.verifyBlock host.crypto block parent with
      | error e => exact ⟨rfl, same⟩
      | ok =>
          rcases partitioned : Partition.ofBlock host.crypto block with ⟨_ | _, parts⟩
          · exact ⟨rfl, same⟩
          · obtain ⟨evmTxs, _⟩ := Partition.ofBlock_parts partitioned
            obtain ⟨result, pass, viewReadable⟩ := evmPass evmTxs parts.totalGasUsed
            simp only
            generalize Execution.runEvm host db block parts.evmTxs _ = executed
              at result pass viewReadable ⊢
            generalize Execution.runEvm host db' block parts.evmTxs _ = executed'
              at result pass ⊢
            obtain ⟨outcome, x⟩ := executed
            obtain ⟨outcome', x'⟩ := executed'
            simp only at result pass viewReadable
            subst result
            cases outcome with
            | error e => exact ⟨rfl, stopped pass⟩
            | ok =>
                obtain ⟨result, pass⟩ :=
                  @SamePass.runGame F host block db db' x x' pass viewReadable order.evmAccounts
                    order'.evmAccounts
                simp only
                generalize (x.flush host db order.evmAccounts).runGame host db block = processed
                  at result pass ⊢
                generalize (x'.flush host db' order'.evmAccounts).runGame host db' block
                  = processed' at result pass ⊢
                obtain ⟨outcome, y⟩ := processed
                obtain ⟨outcome', y'⟩ := processed'
                simp only at result pass
                subst result
                cases outcome with
                | error e => exact ⟨rfl, stopped pass⟩
                | ok => exact ended parts.gameActions pass

end Passes

/-- Two nodes that are offered the same blocks stay the same, by induction on the blocks. -/
theorem SameNode.imports (sound : host.account.RoundTrips)
    (blocks : List (Block × BlockOrder F × BlockOrder F)) {left right : Chain F}
    (same : SameNode host left right)
    : List.Forall₂ (SameOutcome host) (Chain.imports host (onLeft blocks) left)
        (Chain.imports host (onRight blocks) right) := by
  induction blocks generalizing left right with
  | nil => exact .nil
  | cons entry rest ih =>
      obtain ⟨result, next⟩ := same.applyBlock sound entry.1 entry.2.1 entry.2.2
      exact .cons ⟨result, next.accounts, next.gameWorld, next.head⟩ (ih next)

end VeloChain.Chain
