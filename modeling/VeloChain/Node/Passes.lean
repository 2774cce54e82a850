import VeloChain.GameEngine.Inert
import VeloChain.Node.Refinement

/-! The turns a block gives to its transactions.
An EVM transaction has a turn in the EVM pass; a game action has one in the game pass, for its
nonce and gas, and one in the tick, for its payload. Each turn is seen with the states around
it.
-/

namespace VeloChain

open AccountView

namespace GameWorld

variable {F : Type} [F32 F] {crypto : Crypto}

/-- The turn of a transaction in the tick: its payload, if it carries one, acts on the
entities. The number counts the payloads before it.
-/
def actTx (crypto : Crypto) (order : Nat → EntityOrder F) (tx : SignedTransaction)
    (state : Nat × EcsWorld F) : Except GameEngineError Unit × Nat × EcsWorld F :=
  match Partition.payload crypto tx with
  | none => (.ok (), state)
  | some payload =>
      let (result, ecs) :=
        processAction (order state.1) payload.entry.1 payload.entry.2 state.2
      (result, state.1 + 1, ecs)

/-- The turns of all transactions in the tick are the actions of the block. -/
theorem run_actTx (order : Nat → EntityOrder F) (txs : List SignedTransaction)
    (ecs : EcsWorld F)
    : processActions order ((Partition.payloads crypto txs).map Payload.entry) ecs
      = ((Loop.run (actTx crypto order) txs (0, ecs)).1,
          (Loop.run (actTx crypto order) txs (0, ecs)).2.2) := by
  unfold processActions
  generalize 0 = index
  induction txs generalizing index ecs with
  | nil => rfl
  | cons tx rest ih =>
      cases carried : Partition.payload crypto tx with
      | none =>
          have turn : actTx crypto order tx (index, ecs) = (.ok (), index, ecs) := by
            simp only [actTx, carried]
          rw [Loop.run_cons_ok turn, ← ih ecs index, Partition.payloads,
            List.filterMap_cons_none carried]
          rfl
      | some payload =>
          rw [Partition.payloads, List.filterMap_cons_some carried, List.map_cons,
            List.zipIdx_cons]
          rcases acted : processAction (order index) payload.entry.1 payload.entry.2 ecs
            with ⟨e | _, next⟩
          · have turn : actTx crypto order tx (index, ecs) = (.error e, index + 1, next) := by
              simp only [actTx, carried, acted]
            rw [Loop.run_cons_error turn]
            simp only [Loop.run, acted]
          · have turn : actTx crypto order tx (index, ecs) = (.ok (), index + 1, next) := by
              simp only [actTx, carried, acted]
            rw [Loop.run_cons_ok turn, ← ih next (index + 1)]
            simp only [Loop.run, acted, Partition.payloads]

end GameWorld

namespace Ledger

variable {F : Type} {host : Host F}
  {effect : Address → SignedTransaction → Ledger → Ledger}

/-- A successful turn is stale and leaves the ledger, or it is due and has its effect. -/
theorem guarded_ok_cases {ledger after : Ledger} {tx : SignedTransaction}
    (turn : guarded host effect tx ledger = (.ok (), after))
    : Stale host.crypto ledger.view tx ∧ after = ledger
      ∨ ∃ sender, Due host.crypto ledger.view tx sender ∧ after = effect sender tx ledger := by
  rcases turn_cases host.crypto ledger.view tx with refused | stale | ⟨sender, due⟩
  · obtain ⟨e, failed⟩ := guarded_of_refused effect refused
    rw [failed] at turn
    exact absurd (congrArg Prod.fst turn) (by simp)
  · rw [guarded_of_stale stale] at turn
    exact Or.inl ⟨stale, (congrArg Prod.snd turn).symm⟩
  · rw [guarded_of_due due] at turn
    exact Or.inr ⟨sender, due, (congrArg Prod.snd turn).symm⟩

/-- A due turn raises the nonce of its sender by one, and no other nonce changes. -/
theorem CountsNonce.of_due (counts : CountsNonce effect) {ledger : Ledger}
    {tx : SignedTransaction} {sender : Address} (due : Due host.crypto ledger.view tx sender)
    : Raised ledger.view (effect sender tx ledger).view :=
  ⟨sender, _, _, due.nonce, counts.self sender tx ledger _ due.nonce, Nat.lt_succ_self _⟩

/-- A successful turn leaves the ledger exactly when it is stale. -/
theorem CountsNonce.unchanged_iff (counts : CountsNonce effect) {ledger after : Ledger}
    {tx : SignedTransaction} (turn : Ledger.guarded host effect tx ledger = (.ok (), after))
    : after = ledger ↔ Stale host.crypto ledger.view tx := by
  rcases guarded_ok_cases turn with ⟨stale, same⟩ | ⟨sender, due, counted⟩
  · exact iff_of_true same stale
  · refine iff_of_false ?_ due.not_stale
    rw [counted]
    exact fun same => (counts.of_due due).ne (congrArg Ledger.view same)

/-- A turn of the game pass lowers no nonce. -/
theorem nonceLe_gameTx (tx : SignedTransaction) (ledger : Ledger)
    : NonceLe ledger.view (ledger.gameTx host tx).2.view := by
  unfold gameTx
  split
  next => exact (countAction_countsNonce.guarded host tx ledger).1
  next => exact .refl _

end Ledger

namespace Chain

variable {F : Type} [F32 F] (host : Host F) (order : BlockOrder F) (block : Block)
  (chain : Chain F)

/-- What the EVM pass over a block starts with. -/
def evmStart : Execution :=
  let parts := (Partition.ofBlock host.crypto block).2
  .start host chain.db parts.evmTxs parts.totalGasUsed chain.evm chain.state

/-- The turns of the EVM pass over a block. -/
def evmTurns : List (Loop.Turn SignedTransaction Execution) :=
  Loop.turns (Execution.executeEvmTx host chain.db block)
    (Partition.ofBlock host.crypto block).2.evmTxs (chain.evmStart host block)

/-- What the EVM pass over a block ends with. -/
def evmEnd : Execution :=
  (Execution.runEvm host chain.db block (Partition.ofBlock host.crypto block).2.evmTxs
    (chain.evmStart host block)).2

/-- What the game pass over a block starts with. -/
def gameStart : Execution := (chain.evmEnd host block).flush host chain.db order.evmAccounts

/-- The turns of the game pass over a block. -/
def gameTurns : List (Loop.Turn SignedTransaction Execution) :=
  Loop.turns (Execution.processGameTx host chain.db block) block.body.transactions
    (chain.gameStart host order block)

/-- The turns of the tick for a block. -/
def actTurns : List (Loop.Turn SignedTransaction (Nat × EcsWorld F)) :=
  Loop.turns (GameWorld.actTx host.crypto order.tick.action) block.body.transactions
    (0, chain.gameWorld.ecs)

variable {host order block chain}

section Accepted

variable (accepted : Accepted host order block chain)

include accepted

theorem Accepted.ofBlock : (Partition.ofBlock host.crypto block).2 = accepted.parts := by
  rw [accepted.partitioned]

theorem Accepted.evmTxs : (Partition.ofBlock host.crypto block).2.evmTxs = block.evmTxs := by
  rw [accepted.ofBlock]
  exact (Partition.ofBlock_parts accepted.partitioned).1

theorem Accepted.evmEnd_eq
    : Execution.runEvm host chain.db block block.evmTxs (chain.evmStart host block)
        = (.ok (), accepted.executed)
      ∧ chain.evmEnd host block = accepted.executed := by
  have executes := accepted.executes
  unfold evmEnd evmStart
  rw [← accepted.evmTxs]
  simp only [accepted.ofBlock, executes, and_self]

theorem Accepted.game_ok
    : (chain.gameStart host order block).runGame host chain.db block
      = (.ok (), accepted.processed) := by
  rw [gameStart, accepted.evmEnd_eq.2]
  exact accepted.processes

theorem Accepted.act_ok
    : (Loop.run (GameWorld.actTx host.crypto order.tick.action) block.body.transactions
        (0, chain.gameWorld.ecs)).1
      = .ok () := by
  have ticks := accepted.ticks
  rw [(Partition.ofBlock_parts accepted.partitioned).2] at ticks
  unfold GameWorld.tick at ticks
  simp only [GameWorld.run_actTx] at ticks
  cases result : (Loop.run (GameWorld.actTx host.crypto order.tick.action)
      block.body.transactions (0, chain.gameWorld.ecs)).1 with
  | error e => simp [result] at ticks
  | ok => rfl

/-- The EVM pass starts with the loaded ledger. -/
theorem Accepted.evmStart_ledger
    : (chain.evmStart host block).ledger host chain.db
        = .start host block.evmTxs (chain.accounts host)
      ∧ (chain.evmStart host block).evm.chainId = chain.evm.chainId := by
  unfold evmStart
  simp only [accepted.evmTxs]
  exact Execution.start_refines host chain.db block.evmTxs _ chain.evm chain.state

/-- The turns of the EVM pass, seen from the ledger, are those of the pass over ledgers. -/
theorem Accepted.evmTurns_ledgers
    : (chain.evmTurns host block).map (Loop.Turn.map (Execution.ledger host chain.db))
        = Loop.turns (Ledger.evmTx host chain.evm.chainId) block.evmTxs
            (.start host block.evmTxs (chain.accounts host))
      ∧ Loop.run (Ledger.evmTx host chain.evm.chainId) block.evmTxs
          (.start host block.evmTxs (chain.accounts host))
        = (.ok (), (chain.evmEnd host block).ledger host chain.db) := by
  obtain ⟨started, sameId⟩ := accepted.evmStart_ledger
  constructor
  · unfold evmTurns
    rw [accepted.evmTxs, ← started]
    refine Loop.turns_map (Execution.ledger host chain.db)
      (fun (x : Execution) => x.evm.chainId = chain.evm.chainId) ?_ sameId
    intro tx member x held
    obtain ⟨result, ledger, kept⟩ := Execution.executeEvmTx_refines host chain.db block
      (block.isGameAction_of_mem_evmTxs member) x
    rw [held] at result ledger kept
    exact ⟨Prod.ext result.symm ledger.symm, kept⟩
  · obtain ⟨result, ledger, _⟩ := Execution.runEvm_refines host chain.db block
      (fun _ member => block.isGameAction_of_mem_evmTxs member) sameId
    obtain ⟨succeeds, isEnd⟩ := accepted.evmEnd_eq
    rw [succeeds, started] at result ledger
    rw [isEnd]
    exact Prod.ext result.symm ledger.symm

/-- With readable accounts, the game pass starts with the flushed ledger of the EVM pass. -/
theorem Accepted.gameStart_ledger (readable : (chain.accounts host).Readable)
    : (chain.gameStart host order block).ledger host chain.db
      = ((chain.evmEnd host block).ledger host chain.db).flush := by
  apply Execution.flush_refines host chain.db order.evmAccounts _
  intro address _
  have same := @sameReadable_runEvm F host block chain.evm.chainId (chain.accounts host)
  have seen := congrArg Ledger.view (accepted.ledgers readable).executed
  rw [← accepted.evmEnd_eq.2] at seen
  change (chain.evmEnd host block).state.view host.account chain.db = _ at seen
  rw [seen]
  exact (same address).mpr (readable address)

/-- A turn of the EVM pass, seen from the ledger. -/
theorem Accepted.evmTurn {turn : Loop.Turn SignedTransaction Execution}
    (member : turn ∈ chain.evmTurns host block)
    : turn.item ∈ block.evmTxs
      ∧ (turn.before.ledger host chain.db).evmTx host chain.evm.chainId turn.item
        = (.ok (), turn.after.ledger host chain.db) := by
  obtain ⟨turns, succeeds⟩ := accepted.evmTurns_ledgers
  have seen := List.mem_map_of_mem (f := Loop.Turn.map (Execution.ledger host chain.db)) member
  rw [turns] at seen
  exact Loop.turns_ok succeeds seen

/-- A turn of the game pass, seen from the ledger. -/
theorem Accepted.gameTurn {turn : Loop.Turn SignedTransaction Execution}
    (member : turn ∈ chain.gameTurns host order block)
    : Execution.processGameTx host chain.db block turn.item turn.before = (.ok (), turn.after)
      ∧ (turn.before.ledger host chain.db).gameTx host turn.item
        = (.ok (), turn.after.ledger host chain.db) := by
  obtain ⟨_, call⟩ := Loop.turns_ok accepted.game_ok member
  obtain ⟨result, ledger, _⟩ := Execution.processGameTx_refines host chain.db block turn.item
    turn.before
  rw [call] at result ledger
  exact ⟨call, Prod.ext result.symm ledger.symm⟩

/-- A turn of the tick is a successful action. -/
theorem Accepted.actTurn {turn : Loop.Turn SignedTransaction (Nat × EcsWorld F)}
    (member : turn ∈ chain.actTurns host order block)
    : GameWorld.actTx host.crypto order.tick.action turn.item turn.before
      = (.ok (), turn.after) :=
  (Loop.turns_ok (Loop.eq_of_ok accepted.act_ok) member).2

/-- The game pass and the tick visit the transactions of the block in one order. -/
theorem Accepted.turns_items
    : (chain.gameTurns host order block).map Loop.Turn.item = block.body.transactions
      ∧ (chain.actTurns host order block).map Loop.Turn.item = block.body.transactions :=
  ⟨Loop.turns_items accepted.game_ok, Loop.turns_items (Loop.eq_of_ok accepted.act_ok)⟩

/-- A turn of the EVM pass changes nothing exactly when its transaction is stale. -/
theorem Accepted.evmTurn_unchanged_iff {turn : Loop.Turn SignedTransaction Execution}
    (member : turn ∈ chain.evmTurns host block)
    : turn.after.ledger host chain.db = turn.before.ledger host chain.db
      ↔ Stale host.crypto (turn.before.ledger host chain.db).view turn.item :=
  (Ledger.transact_countsNonce host chain.evm.chainId).unchanged_iff (accepted.evmTurn member).2

/-- A turn of the game pass changes nothing exactly when it is stale or not a game action. -/
theorem Accepted.gameTurn_unchanged_iff {turn : Loop.Turn SignedTransaction Execution}
    (member : turn ∈ chain.gameTurns host order block)
    : turn.after.ledger host chain.db = turn.before.ledger host chain.db
      ↔ (turn.item.isGameAction = true →
          Stale host.crypto (turn.before.ledger host chain.db).view turn.item) := by
  have call := (accepted.gameTurn member).2
  unfold Ledger.gameTx at call
  by_cases isGame : turn.item.isGameAction = true
  · rw [if_pos isGame] at call
    simp only [isGame, true_imp_iff]
    exact Ledger.countAction_countsNonce.unchanged_iff call
  · rw [if_neg isGame] at call
    exact iff_of_true (congrArg Prod.snd call).symm (fun game => absurd game isGame)

/-- A turn of the tick changes nothing exactly when its payload, if any, is inert. -/
theorem Accepted.actTurn_unchanged_iff {turn : Loop.Turn SignedTransaction (Nat × EcsWorld F)}
    (member : turn ∈ chain.actTurns host order block)
    : turn.after.2 = turn.before.2
      ↔ ∀ payload, Partition.payload host.crypto turn.item = some payload →
          GameWorld.Inert (order.tick.action turn.before.1) (debugAddress payload.sender)
            turn.before.2 payload.action := by
  have call := accepted.actTurn member
  unfold GameWorld.actTx at call
  cases carried : Partition.payload host.crypto turn.item with
  | none =>
      simp only [carried, Prod.mk.injEq, true_and] at call
      simp only [← call, reduceCtorEq, false_imp_iff, implies_true]
  | some payload =>
      simp only [carried, Prod.mk.injEq] at call
      simp only [← call.2, Option.some.injEq, forall_eq']
      exact GameWorld.processAction_eq_self_iff _ _ _ _

end Accepted

end Chain

end VeloChain
