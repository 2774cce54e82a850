import VeloChain.Node.Acceptance
import VeloChain.Node.Reference

/-! What a failed block application leaves behind.
Nothing is undone on an error, so the node is unchanged only if the application stops before
its first write. Which transactions write is decided by their nonces, whatever the EVM does.
-/

namespace VeloChain

/-- An interpreter that refuses every transaction and forgets every account, an extreme among
the arbitrary ones.
-/
def Revm.forgetting : Revm := { transactCommit := fun _ _ _ => (.error "forgotten", .empty) }

namespace Chain

variable {F : Type} [F32 F]

-----------------------------------------------------------------------------------------
-- Imports that fail
-----------------------------------------------------------------------------------------

/-- The accounts, working and committed, the game world, the database, the pool and the head
are what they were.
-/
structure Unchanged (host : Host F) (before after : Chain F) : Prop where
  accounts : after.accounts host = before.accounts host
  committed
    : WorldState.committedView host.account after.db
      = WorldState.committedView host.account before.db
  gameWorld : after.gameWorld = before.gameWorld
  db : after.db = before.db
  txpool : after.txpool = before.txpool
  head : after.head = before.head

omit [F32 F] in
theorem Unchanged.refl (host : Host F) (chain : Chain F) : Unchanged host chain chain :=
  ⟨rfl, rfl, rfl, rfl, rfl, rfl⟩

/-- A failing application of the block changes nothing. -/
def Atomic (host : Host F) (order : BlockOrder F) (block : Block) (chain : Chain F) : Prop :=
  ∀ e after, chain.applyBlock host order block = (.error e, after) → Unchanged host chain after

/-- The block is rejected before any of its transactions is looked at: there is no head, the
header or the seal is wrong, or the sender of a game action cannot be recovered.
-/
def RejectedEarly (host : Host F) (block : Block) (chain : Chain F) : Prop :=
  chain.head = none
  ∨ (∃ parent,
      chain.head = some parent
      ∧ chain.consensus.verifyBlock host.crypto block parent ≠ .ok ())
  ∨ ∃ tx ∈ block.body.transactions, ¬ Partition.Recovers host.crypto tx

/-- The pass, or the tick, that ended a failed application, and what it leaves. -/
inductive Failed (host : Host F) (order : BlockOrder F) (block : Block) (chain : Chain F)
    : Chain F → Prop
  | evmPass {gasUsed : UInt64} {e : NodeError} {x : Execution}
    (executes
      : (Execution.start host chain.db block.evmTxs gasUsed chain.evm chain.state).runEvm host
          chain.db block block.evmTxs
        = (.error e, x))
    : Failed host order block chain { chain with evm := x.evm, state := x.state }
  | gamePass {gasUsed : UInt64} {e : NodeError} {executed x : Execution}
    (executes
      : (Execution.start host chain.db block.evmTxs gasUsed chain.evm chain.state).runEvm host
          chain.db block block.evmTxs
        = (.ok (), executed))
    (processes
      : (executed.flush host chain.db order.evmAccounts).runGame host chain.db block
        = (.error e, x))
    : Failed host order block chain { chain with evm := x.evm, state := x.state }
  | tick {gasUsed : UInt64} {e : GameEngineError} {executed x : Execution}
    {world : GameWorld F}
    (executes
      : (Execution.start host chain.db block.evmTxs gasUsed chain.evm chain.state).runEvm host
          chain.db block block.evmTxs
        = (.ok (), executed))
    (processes
      : (executed.flush host chain.db order.evmAccounts).runGame host chain.db block
        = (.ok (), x))
    (ticks
      : chain.gameWorld.tick host.crypto host.ecs order.tick (gameEntries host.crypto block)
        = (.error e, world))
    : Failed host order block chain
        { chain with evm := x.evm, state := x.state, gameWorld := world }

section Failures

variable {host : Host F} {order : BlockOrder F} {block : Block} {chain after : Chain F}

theorem applyBlock_of_rejectedEarly (early : RejectedEarly host block chain)
    : ∃ e, chain.applyBlock host order block = (.error e, chain) := by
  unfold applyBlock
  cases head : chain.head with
  | none => exact ⟨_, rfl⟩
  | some parent =>
      simp only
      cases verified : chain.consensus.verifyBlock host.crypto block parent with
      | error e => exact ⟨_, rfl⟩
      | ok =>
          have fails : (Partition.ofBlock host.crypto block).1 ≠ .ok () := by
            rw [ne_eq, Partition.ofBlock_ok_iff]
            rcases early with noHead | ⟨other, isHead, wrong⟩ | ⟨tx, member, fails⟩
            · simp [head] at noHead
            · obtain rfl := Option.some.inj (head.symm.trans isHead)
              exact absurd verified wrong
            · exact fun recovers => fails (recovers tx member)
          rcases partitioned : Partition.ofBlock host.crypto block with ⟨e | _, parts⟩
          · exact ⟨e, rfl⟩
          · simp [partitioned] at fails

omit [F32 F] in
theorem follows_of_not_rejectedEarly (late : ¬ RejectedEarly host block chain)
    : ∃ parent,
        chain.head = some parent
        ∧ chain.consensus.verifyBlock host.crypto block parent = .ok () := by
  cases head : chain.head with
  | none => exact absurd (Or.inl head) late
  | some parent =>
      refine ⟨parent, rfl, ?_⟩
      by_contra wrong
      exact late (Or.inr (Or.inl ⟨parent, head, wrong⟩))

/-- A failure past the early checks ends in one of the passes or in the tick. -/
theorem applyBlock_failed (late : ¬ RejectedEarly host block chain) {e : NodeError}
    (failed : chain.applyBlock host order block = (.error e, after))
    : Failed host order block chain after := by
  obtain ⟨parent, head, verified⟩ := follows_of_not_rejectedEarly late
  have recovers : ∀ tx ∈ block.body.transactions, Partition.Recovers host.crypto tx := by
    intro tx member
    by_contra fails
    exact late (Or.inr (Or.inr ⟨tx, member, fails⟩))
  have succeeds := Partition.ofBlock_ok_iff.mpr recovers
  rcases partitioned : Partition.ofBlock host.crypto block with ⟨_, parts⟩
  rw [partitioned] at succeeds
  subst succeeds
  obtain ⟨evmTxs, gameActions⟩ := Partition.ofBlock_parts partitioned
  unfold applyBlock at failed
  simp only [head, verified, partitioned, evmTxs, gameActions] at failed
  split at failed
  next executes =>
    obtain ⟨_, rfl⟩ := Prod.mk.inj failed
    rw [← head]
    exact .evmPass executes
  next executes =>
    split at failed
    next processes =>
      obtain ⟨_, rfl⟩ := Prod.mk.inj failed
      rw [← head]
      exact .gamePass executes processes
    next processes =>
      split at failed
      next ticks =>
        obtain ⟨_, rfl⟩ := Prod.mk.inj failed
        rw [← head]
        exact .tick executes processes ticks
      next => simp at failed

end Failures

end Chain

-----------------------------------------------------------------------------------------
-- Passes that change nothing, and passes that raise a nonce
-----------------------------------------------------------------------------------------

namespace Execution

open AccountView

variable {F : Type} {host : Host F} {db : Database} (block : Block) (gasUsed : UInt64)
  (evm : EvmExecutor) (state : WorldState)

/-- A block whose EVM transactions stop the pass before any counts leaves the accounts. -/
theorem runEvm_of_stopsStale
    (stops : StopsStale host.crypto (state.view host.account db) block.evmTxs)
    : ∃ e x,
        (start host db block.evmTxs gasUsed evm state).runEvm host db block block.evmTxs
          = (.error e, x)
        ∧ x.state.view host.account db = state.view host.account db := by
  obtain ⟨result, ledger⟩ := @runEvm_start F host db block gasUsed evm state
  have loaded := Ledger.start_view host block.evmTxs (state.view host.account db)
  rw [← loaded] at stops
  obtain ⟨e, run⟩ := Ledger.run_guarded_of_stopsStale
    (fun sender tx => Ledger.transact host evm.chainId sender tx.transaction) _ stops
  rw [Ledger.evmTx, run] at result ledger
  exact ⟨e, _, Prod.ext result rfl, (congrArg Ledger.view ledger).trans loaded⟩

/-- Where every EVM transaction is stale, pass and flush leave the accounts. -/
theorem runEvm_of_stale
    (stale : ∀ tx ∈ block.evmTxs, Stale host.crypto (state.view host.account db) tx)
    : ∃ x,
        (start host db block.evmTxs gasUsed evm state).runEvm host db block block.evmTxs
          = (.ok (), x)
        ∧ ∀ order,
            (x.flush host db order).state.view host.account db
              = state.view host.account db := by
  obtain ⟨result, ledger⟩ := @runEvm_start F host db block gasUsed evm state
  have loaded := Ledger.start_view host block.evmTxs (state.view host.account db)
  have holds := Ledger.start_holds host block.evmTxs (state.view host.account db)
  rw [← loaded] at stale
  have run := Ledger.run_guarded_of_stale
    (fun sender tx => Ledger.transact host evm.chainId sender tx.transaction) _ stale
  rw [Ledger.evmTx, run] at result ledger
  rcases executes
      : (start host db block.evmTxs gasUsed evm state).runEvm host db block block.evmTxs
    with ⟨_, x⟩
  rw [executes] at result ledger
  subst result
  refine ⟨x, rfl, ?_⟩
  intro order
  have dbs := congrArg Ledger.db ledger
  have views := (congrArg Ledger.view ledger).trans loaded
  simp only [Execution.ledger] at dbs views
  have flushed := flush_refines host db order x (by
    rw [dbs, views]
    exact holds.readable)
  have flushedView := congrArg Ledger.view flushed
  simp only [Execution.ledger, Ledger.flush, dbs, views] at flushedView
  exact flushedView.trans holds.flush

/-- Game actions that stop the pass before any counts leave the accounts. -/
theorem runGame_of_stopsStale (execution : Execution)
    (stops : StopsStale host.crypto (execution.state.view host.account db) block.gameTxs)
    : ∃ e x,
        execution.runGame host db block = (.error e, x)
        ∧ x.state.view host.account db = execution.state.view host.account db := by
  obtain ⟨result, ledger⟩ := runGame_refines host db block execution
  obtain ⟨e, run⟩ := Ledger.run_guarded_of_stopsStale
    (fun sender _ => Ledger.countAction sender) (execution.ledger host db) stops
  rw [Ledger.run_gameTx, Ledger.countTx, run] at result ledger
  exact ⟨e, _, Prod.ext result rfl, congrArg Ledger.view ledger⟩

/-- The EVM pass raises a nonce unless it stops before, or finds only stale transactions. -/
theorem runEvm_raises
    (goesOn : ¬ StopsStale host.crypto (state.view host.account db) block.evmTxs)
    (notStale : ¬ ∀ tx ∈ block.evmTxs, Stale host.crypto (state.view host.account db) tx)
    : Raised (state.view host.account db)
        (((start host db block.evmTxs gasUsed evm state).runEvm host db block
          block.evmTxs).2.state.view host.account db) := by
  obtain ⟨_, ledger⟩ := @runEvm_start F host db block gasUsed evm state
  have loaded := Ledger.start_view host block.evmTxs (state.view host.account db)
  rw [← loaded] at goesOn notStale
  have raised := (Ledger.transact_countsNonce host evm.chainId).run_raises _ goesOn notStale
  rw [loaded] at raised
  exact (congrArg (fun l : Ledger => Raised _ l.view) ledger).mpr raised

/-- The game pass raises a nonce unless it stops before, or finds only stale actions. -/
theorem runGame_raises (execution : Execution)
    (goesOn : ¬ StopsStale host.crypto (execution.state.view host.account db) block.gameTxs)
    (notStale
      : ¬ ∀ tx ∈ block.gameTxs, Stale host.crypto (execution.state.view host.account db) tx)
    : Raised (execution.state.view host.account db)
        ((execution.runGame host db block).2.state.view host.account db) := by
  have ledger := (runGame_refines host db block execution).2
  rw [Ledger.run_gameTx] at ledger
  have raised := Ledger.countAction_countsNonce.run_raises (execution.ledger host db) goesOn
    notStale
  exact (congrArg (fun l : Ledger => Raised _ l.view) ledger).mpr raised

/-- The game pass lowers no nonce. -/
theorem runGame_nonceLe (execution : Execution)
    : NonceLe (execution.state.view host.account db)
        ((execution.runGame host db block).2.state.view host.account db) := by
  have ledger := (runGame_refines host db block execution).2
  rw [Ledger.run_gameTx] at ledger
  have le := (Ledger.countAction_countsNonce.run host block.gameTxs
    (execution.ledger host db)).1
  exact (congrArg (fun l : Ledger => NonceLe _ l.view) ledger).mpr le

/-- After an interpreter that forgets every account there is nothing to flush. -/
theorem flush_forgetting (forgets : host.revm = .forgetting)
    (order : IterationOrder Address DbAccount)
    : ((((start host db block.evmTxs gasUsed evm state).runEvm host db block
          block.evmTxs).2).flush host db order).state.view host.account db
      = ((start host db block.evmTxs gasUsed evm state).runEvm host db block
          block.evmTxs).2.state.view host.account db := by
  obtain ⟨_, ledger⟩ := @runEvm_start F host db block gasUsed evm state
  have loaded := Ledger.start_view host block.evmTxs (state.view host.account db)
  have untouched
      : ∀ l : Ledger, l = .start host block.evmTxs (state.view host.account db) ∨ l.db = .empty
          → (∀ address ∈ l.db.accounts, l.view.ReadableAt address)
            ∧ l.view.flush l.db.accounts = l.view := by
    intro l reached
    cases reached with
    | inl same =>
        have holds := Ledger.start_holds host block.evmTxs (state.view host.account db)
        rw [same, loaded]
        exact ⟨holds.readable, holds.flush⟩
    | inr empty =>
        rw [empty]
        exact ⟨fun _ member => absurd member Finmap.notMem_empty,
          funext (fun _ => AccountView.flush_of_none (Finmap.lookup_empty _) l.view)⟩
  have reached := @Loop.run_invariant _ _ _ (Ledger.evmTx host evm.chainId) block.evmTxs
    (.start host block.evmTxs (state.view host.account db))
    (fun l => l = .start host block.evmTxs (state.view host.account db) ∨ l.db = .empty)
    (by
      intro tx _ l reached
      rcases turn_cases host.crypto l.view tx with refused | stale | ⟨sender, due⟩
      · obtain ⟨e, turn⟩ := Ledger.guarded_of_refused
          (fun sender tx => Ledger.transact host evm.chainId sender tx.transaction) refused
        rw [Ledger.evmTx, turn]
        exact reached
      · rw [Ledger.evmTx, Ledger.guarded_of_stale stale]
        exact reached
      · rw [Ledger.evmTx, Ledger.guarded_of_due due]
        apply Or.inr
        simp only [Ledger.transact, forgets]
        rfl)
    (Or.inl rfl)
  rw [← ledger] at reached
  obtain ⟨readable, same⟩ := untouched _ reached
  exact (congrArg Ledger.view (flush_refines host db order _ readable)).trans same

end Execution

namespace Chain

open AccountView Execution

variable {F : Type} [F32 F] {host : Host F} {order : BlockOrder F} {block : Block}
  {chain after : Chain F}

-----------------------------------------------------------------------------------------
-- Failures that leave the chain unchanged
-----------------------------------------------------------------------------------------

omit [F32 F] in
theorem unchanged_of_accounts {evm : EvmExecutor} {state : WorldState}
    (same : state.view host.account chain.db = chain.accounts host)
    : Unchanged host chain { chain with evm, state } :=
  ⟨same, rfl, rfl, rfl, rfl, rfl⟩

/-- Where the first transaction that is not stale is refused, a failure changes nothing. -/
theorem Failed.unchanged_of_stopsStale (failed : Failed host order block chain after)
    (stops : StopsStale host.crypto (chain.accounts host) (block.evmTxs ++ block.gameTxs))
    : Unchanged host chain after := by
  cases stopsStale_append.mp stops with
  | inl evmStops =>
      have fails (gasUsed : UInt64) :=
        runEvm_of_stopsStale block gasUsed chain.evm chain.state evmStops
      cases failed with
      | @evmPass gasUsed e x executes =>
          obtain ⟨_, _, stopped, same⟩ := fails gasUsed
          obtain ⟨_, rfl⟩ := Prod.mk.inj (executes.symm.trans stopped)
          exact unchanged_of_accounts same
      | @gamePass gasUsed e executed x executes _ =>
          obtain ⟨_, _, stopped, _⟩ := fails gasUsed
          simp [executes] at stopped
      | @tick gasUsed e executed x world executes _ _ =>
          obtain ⟨_, _, stopped, _⟩ := fails gasUsed
          simp [executes] at stopped
  | inr later =>
      obtain ⟨stale, gameStops⟩ := later
      have runs (gasUsed : UInt64) :=
        runEvm_of_stale block gasUsed chain.evm chain.state stale
      have fails {gasUsed : UInt64} {executed : Execution}
          (executes
            : (Execution.start host chain.db block.evmTxs gasUsed chain.evm chain.state).runEvm
                host chain.db block block.evmTxs
              = (.ok (), executed))
          : ∃ e x,
              (executed.flush host chain.db order.evmAccounts).runGame host chain.db block
                = (.error e, x)
              ∧ x.state.view host.account chain.db = chain.accounts host := by
        obtain ⟨x, ran, same⟩ := runs gasUsed
        obtain ⟨_, rfl⟩ := Prod.mk.inj (executes.symm.trans ran)
        have kept := same order.evmAccounts
        obtain ⟨e, stopped, fails, sameAfter⟩ := runGame_of_stopsStale block
          (executed.flush host chain.db order.evmAccounts) (by rw [kept]; exact gameStops)
        exact ⟨e, stopped, fails, sameAfter.trans kept⟩
      cases failed with
      | @evmPass gasUsed e x executes =>
          obtain ⟨_, ran, _⟩ := runs gasUsed
          simp [executes] at ran
      | gamePass executes processes =>
          obtain ⟨_, _, stopped, same⟩ := fails executes
          obtain ⟨_, rfl⟩ := Prod.mk.inj (processes.symm.trans stopped)
          exact unchanged_of_accounts same
      | tick executes processes _ =>
          obtain ⟨_, _, stopped, _⟩ := fails executes
          simp [processes] at stopped

/-- A failure past the first transaction that is not stale changes the node, at least when
the interpreter forgets every account.
-/
theorem Failed.changed (failed : Failed host order block chain after)
    (forgets : host.revm = .forgetting)
    (goesOn : ¬ StopsStale host.crypto (chain.accounts host) (block.evmTxs ++ block.gameTxs))
    : ¬ Unchanged host chain after := by
  intro unchanged
  rw [stopsStale_append, not_or] at goesOn
  obtain ⟨evmGoesOn, gameGoesOn⟩ := goesOn
  have raises (gasUsed : UInt64)
      (notStale : ¬ ∀ tx ∈ block.evmTxs, Stale host.crypto (chain.accounts host) tx) :=
    runEvm_raises block gasUsed chain.evm chain.state evmGoesOn notStale
  cases failed with
  | @evmPass gasUsed e x executes =>
      have notStale : ¬ ∀ tx ∈ block.evmTxs, Stale host.crypto (chain.accounts host) tx := by
        intro stale
        obtain ⟨_, ran, _⟩ := runEvm_of_stale block gasUsed chain.evm chain.state stale
        simp [executes] at ran
      have raised := raises gasUsed notStale
      rw [executes] at raised
      exact raised.ne unchanged.accounts
  | @gamePass gasUsed e executed x executes processes =>
      have raised
          : Raised (chain.accounts host) (x.state.view host.account chain.db) := by
        by_cases stale : ∀ tx ∈ block.evmTxs, Stale host.crypto (chain.accounts host) tx
        · obtain ⟨_, ran, same⟩ := runEvm_of_stale block gasUsed chain.evm chain.state stale
          obtain ⟨_, rfl⟩ := Prod.mk.inj (executes.symm.trans ran)
          have kept
              : (executed.flush host chain.db order.evmAccounts).state.view host.account
                  chain.db
                = chain.accounts host :=
            same order.evmAccounts
          have raised := @runGame_raises F host chain.db block
            (executed.flush host chain.db order.evmAccounts)
          rw [kept, processes] at raised
          apply raised (fun stops => gameGoesOn ⟨stale, stops⟩)
          intro gameStale
          have succeeds := (runGame_ok_iff block
            (executed.flush host chain.db order.evmAccounts)).mpr (by
              rw [kept]
              exact fun tx member => (gameStale tx member).senderReadable)
          simp [processes] at succeeds
        · have flushed := @flush_forgetting F host chain.db block gasUsed chain.evm chain.state
            forgets order.evmAccounts
          have le := @runGame_nonceLe F host chain.db block
            (executed.flush host chain.db order.evmAccounts)
          have raised := raises gasUsed stale
          rw [executes] at flushed raised
          rw [flushed, processes] at le
          exact raised.trans_nonceLe le
      exact raised.ne unchanged.accounts
  -- a tick that fails has been counted
  | tick executes processes ticks =>
      have later := congrArg (fun run => run.2.currentTick) ticks
      rw [GameWorld.currentTick_tick] at later
      rw [← unchanged.gameWorld] at later
      simp at later

/-- Whatever the interpreter does, a failing application of the block changes nothing exactly
when it is rejected early, or the first transaction that is not stale, with the EVM
transactions before the game actions, cannot be attributed to a readable sender, or nothing
stands against the block past its header.
-/
theorem atomic_iff (host : Host F) (order : BlockOrder F) (block : Block) (chain : Chain F)
    : (∀ revm, Atomic { host with revm } order block chain)
      ↔ RejectedEarly host block chain
        ∨ StopsStale host.crypto (chain.accounts host) (block.evmTxs ++ block.gameTxs)
        ∨ (∀ tx ∈ block.body.transactions, SenderReadable host.crypto (chain.accounts host) tx)
          ∧ chain.AdmitsActions host.crypto block := by
  constructor
  · intro atomic
    by_contra exposed
    rw [not_or, not_or] at exposed
    obtain ⟨late, goesOn, fails⟩ := exposed
    rcases applied : chain.applyBlock { host with revm := .forgetting } order block
      with ⟨e | _, after⟩
    -- the flush of an interpreter that forgets hides nothing the world state has counted
    · have failed := @applyBlock_failed F _ { host with revm := .forgetting } order block chain
        after late e applied
      exact failed.changed rfl goesOn (atomic .forgetting e after applied)
    · exact fails (applyBlock_accepts_iff.mp ⟨after, applied⟩).2
  · intro safe revm e after applied
    by_cases early : RejectedEarly host block chain
    · obtain ⟨_, rejected⟩ := @applyBlock_of_rejectedEarly F _ { host with revm } order block
        chain early
      obtain ⟨_, rfl⟩ := Prod.mk.inj (applied.symm.trans rejected)
      exact .refl _ _
    · have failed := @applyBlock_failed F _ { host with revm } order block chain after early e
        applied
      rcases safe with isEarly | stops | admitted
      · exact absurd isEarly early
      · exact failed.unchanged_of_stopsStale stops
      · obtain ⟨next, accepted⟩ :=
          (@applyBlock_accepts_iff F _ { host with revm } order block chain).mpr
            ⟨follows_of_not_rejectedEarly early, admitted⟩
        simp [applied] at accepted

/-- An attack on an entity that does not exist fails after the tick has been counted. -/
theorem atomic_fails_on_missing_target
    : ¬ ∀ (host : Host Milli) (order : BlockOrder Milli) (block : Block)
          (chain : Chain Milli) (revm : Revm),
        Atomic { host with revm } order block chain := by
  intro claimed
  let block := Block.following (.genesis 0) [.action 9 1 0 (.attack 42)]
  let chain := Chain.reference (.reference []) .reference 9 0
  have atomic := claimed (.reference []) (.ascending Milli) block chain .transfers
  have fails : (chain.applyBlock (.reference []) (.ascending Milli) block).1 ≠ .ok () := by
    decide +kernel
  have ticked
      : (chain.applyBlock (.reference []) (.ascending Milli) block).2.gameWorld.currentTick
        = 1 := by
    decide +kernel
  rcases applied : chain.applyBlock (.reference []) (.ascending Milli) block
    with ⟨e | _, after⟩
  · rw [applied] at ticked
    have same := (atomic e after applied).gameWorld
    rw [same] at ticked
    exact absurd ticked (by decide)
  · exact fails (by rw [applied])

end Chain

end VeloChain
