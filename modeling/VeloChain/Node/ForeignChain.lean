import VeloChain.Node.Passes
import VeloChain.Node.Reference

/-! Transactions signed for another chain.
The EVM pass, the game pass and the tick compare nonces and look up players, but none of them
compares chain ids. Only the interpreter does, and its verdict changes no bookkeeping.
-/

namespace VeloChain

/-- The interpreter rejects a transaction for another chain id than its own, and leaves its
database.
-/
def Revm.RejectsForeign (revm : Revm) : Prop :=
  ∀ chainId env db, env.chainId ≠ some chainId →
    ∃ e, revm.transactCommit chainId env db = (.error e, db)

theorem Revm.transfers_rejectsForeign : Revm.transfers.RejectsForeign := by
  intro chainId env db foreign
  refine ⟨"InvalidChainId", ?_⟩
  simp only [transfers, rejection, ne_eq, foreign, not_false_eq_true, if_true]

namespace Chain

variable {F : Type} [F32 F]

/-- The transaction is signed for another chain. -/
def Foreign (chain : Chain F) (tx : SignedTransaction) : Prop :=
  tx.transaction.chainId ≠ chain.chainId

instance (chain : Chain F) : DecidablePred chain.Foreign :=
  fun _ => inferInstanceAs (Decidable (_ ≠ _))

/-- No turn of a foreign transaction changes an account, in the EVM or in the world state, or
the entities of the game world.
-/
structure IgnoresForeign (host : Host F) (order : BlockOrder F) (block : Block)
    (chain : Chain F) : Prop where
  evm
    : ∀ turn ∈ chain.evmTurns host block, chain.Foreign turn.item →
        turn.after.ledger host chain.db = turn.before.ledger host chain.db
  game
    : ∀ turn ∈ chain.gameTurns host order block, chain.Foreign turn.item →
        turn.after.ledger host chain.db = turn.before.ledger host chain.db
  act
    : ∀ turn ∈ chain.actTurns host order block, chain.Foreign turn.item →
        turn.after.2 = turn.before.2

/-- Every foreign transaction comes with another nonce than its sender's at its turn, and
every payload among them finds nothing to change.
-/
structure ForeignHarmless (host : Host F) (order : BlockOrder F) (block : Block)
    (chain : Chain F) : Prop where
  evm
    : ∀ turn ∈ chain.evmTurns host block, chain.Foreign turn.item →
        Stale host.crypto (turn.before.ledger host chain.db).view turn.item
  game
    : ∀ turn ∈ chain.gameTurns host order block, chain.Foreign turn.item →
        turn.item.isGameAction = true →
        Stale host.crypto (turn.before.ledger host chain.db).view turn.item
  act
    : ∀ turn ∈ chain.actTurns host order block, chain.Foreign turn.item →
        ∀ payload, Partition.payload host.crypto turn.item = some payload →
          GameWorld.Inert (order.tick.action turn.before.1) (debugAddress payload.sender)
            turn.before.2 payload.action

variable {host : Host F} {order : BlockOrder F} {block : Block} {chain : Chain F}

/-- An accepted block lets its foreign transactions pass without effect exactly when each is
stale at its turn and carries no payload that could change something.
-/
theorem ignoresForeign_iff {next : Chain F}
    (applied : chain.applyBlock host order block = (.ok (), next))
    : IgnoresForeign host order block chain ↔ ForeignHarmless host order block chain := by
  obtain ⟨accepted, _⟩ := applyBlock_ok_iff.mp applied
  constructor
  · intro ignores
    exact
      { evm := fun turn member foreign =>
          (accepted.evmTurn_unchanged_iff member).mp (ignores.evm turn member foreign)
        game := fun turn member foreign =>
          (accepted.gameTurn_unchanged_iff member).mp (ignores.game turn member foreign)
        act := fun turn member foreign =>
          (accepted.actTurn_unchanged_iff member).mp (ignores.act turn member foreign) }
  · intro harmless
    exact
      { evm := fun turn member foreign =>
          (accepted.evmTurn_unchanged_iff member).mpr (harmless.evm turn member foreign)
        game := fun turn member foreign =>
          (accepted.gameTurn_unchanged_iff member).mpr (harmless.game turn member foreign)
        act := fun turn member foreign =>
          (accepted.actTurn_unchanged_iff member).mpr (harmless.act turn member foreign) }

/-- A move of account 9 for chain 2, in a block for chain 1. -/
def foreignMove : Block := .following (.genesis 0) [.action 9 2 0 (.move 1000 0 0)]

/-- A block whose foreign transaction is a stale chat. -/
def foreignChat : Block :=
  .following (.genesis 0) [.action 9 1 0 (.move 1000 0 0), .action 9 2 0 (.chat "hello")]

/-- Chain 1 plays a move signed for chain 2, with an interpreter that rejects it. -/
theorem ignoresForeign_fails_on_move
    : ¬ ∀ (host : Host Milli) (order : BlockOrder Milli) (block : Block)
          (chain next : Chain Milli),
        host.revm.RejectsForeign
        → chain.applyBlock host order block = (.ok (), next)
        → IgnoresForeign host order block chain := by
  intro claimed
  let host : Host Milli := .reference []
  let chain : Chain Milli := .reference host .reference 9 0
  have applied : (chain.applyBlock host (.ascending Milli) foreignMove).1 = .ok () := by
    decide +kernel
  have ignores := claimed host (.ascending Milli) foreignMove chain _
    Revm.transfers_rejectsForeign (Loop.eq_of_ok applied)
  have harmless := (ignoresForeign_iff (Loop.eq_of_ok applied)).mp ignores
  obtain ⟨turn, member, item, before⟩ := Loop.exists_first_turn
    (GameWorld.actTx host.crypto (BlockOrder.ascending Milli).tick.action)
    (.action 9 2 0 (.move 1000 0 0)) [] (0, chain.gameWorld.ecs)
  have foreign : chain.Foreign turn.item := by
    rw [item]
    decide +kernel
  have carried
      : Partition.payload host.crypto turn.item
        = some ⟨.action 9 2 0 (.move 1000 0 0), 9, .move 1000 0 0⟩ := by
    rw [item]
    decide +kernel
  have unknown
      : GameWorld.findPlayerEntity ((BlockOrder.ascending Milli).tick.action 0)
          (debugAddress 9) chain.gameWorld.ecs
        = none := by
    decide +kernel
  obtain ⟨entity, found, _⟩ := harmless.act turn member foreign _ carried
  rw [before] at found
  exact absurd (unknown.symm.trans found) (by simp)

theorem ignoresForeign_iff_chat
    : IgnoresForeign (.reference []) (.ascending Milli) foreignChat
        (.reference (.reference []) .reference 9 0)
      ↔ ForeignHarmless (.reference []) (.ascending Milli) foreignChat
        (.reference (.reference []) .reference 9 0) :=
  ignoresForeign_iff (Loop.eq_of_ok (by decide +kernel))

end Chain

end VeloChain
