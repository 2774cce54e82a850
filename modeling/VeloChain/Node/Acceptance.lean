import VeloChain.GameEngine.Roster
import VeloChain.Node.Finalize
import VeloChain.Node.NoncePass

/-! Which blocks a chain accepts: the header rules, the senders and the attacked entities
decide, whatever the EVM does with the transactions.
-/

namespace VeloChain

namespace Block

/-- The transactions the EVM pass runs over. -/
def evmTxs (block : Block) : List SignedTransaction :=
  block.body.transactions.filter (fun tx => !tx.isGameAction)

/-- The transactions the game pass counts. -/
def gameTxs (block : Block) : List SignedTransaction :=
  block.body.transactions.filter SignedTransaction.isGameAction

end Block

/-- A game action with a payload whose sender is known. -/
structure Payload where
  tx : SignedTransaction
  sender : Address
  action : GameAction
  deriving DecidableEq

/-- What the game engine is told of a payload. -/
def Payload.entry (payload : Payload) : String × GameAction :=
  (debugAddress payload.sender, payload.action)

namespace Partition

variable (crypto : Crypto)

/-- The payload of a transaction, if it is a game action that carries one. -/
def payload (tx : SignedTransaction) : Option Payload :=
  if tx.isGameAction then
    match tx.gameAction, tx.sender crypto with
    | some action, .ok sender => some { tx, sender, action }
    | _, _ => none
  else none

/-- The payloads of a list of transactions, in order. -/
def payloads (txs : List SignedTransaction) : List Payload := txs.filterMap (payload crypto)

/-- The sender of the transaction is recovered, or the partition does not need it. -/
def Recovers (tx : SignedTransaction) : Prop :=
  tx.isGameAction = true → tx.gameAction.isSome → ∃ sender, tx.sender crypto = .ok sender

variable {crypto}

theorem isGameAction_of_payload {tx : SignedTransaction} {payload : Payload}
    (carried : Partition.payload crypto tx = some payload)
    : tx.isGameAction = true := by
  by_contra other
  simp [Partition.payload, other] at carried

/-- What sorting one transaction adds to the partition, and when it fails. -/
theorem addTx_cases (tx : SignedTransaction) (parts : Partition)
    : ((addTx crypto tx parts).1 = .ok () ↔ Recovers crypto tx)
      ∧ (Recovers crypto tx
          → (addTx crypto tx parts).2.evmTxs
              = parts.evmTxs ++ [tx].filter (fun tx => !tx.isGameAction)
            ∧ (addTx crypto tx parts).2.gameActions
              = parts.gameActions ++ (payloads crypto [tx]).map Payload.entry) := by
  unfold addTx Recovers payloads
  by_cases isGame : tx.isGameAction = true
  · cases carried : tx.gameAction with
    | none => simp [isGame, carried, payload]
    | some action =>
        cases recovered : tx.sender crypto with
        | error e => simp [isGame]
        | ok sender => simp [isGame, carried, recovered, payload, Payload.entry]
  · simp [isGame, payload]

/-- The partition succeeds exactly when the sender of every payload is recovered. -/
theorem ofBlock_ok_iff {block : Block}
    : (ofBlock crypto block).1 = .ok () ↔ ∀ tx ∈ block.body.transactions, Recovers crypto tx :=
  Loop.run_ok_iff (fun _ => True) (fun tx _ parts _ => (addTx_cases tx parts).1)
    (fun _ _ _ _ => trivial) trivial

/-- A successful partition keeps the transactions for the EVM and the payloads in order. -/
theorem ofBlock_parts {block : Block} {parts : Partition}
    (partitioned : ofBlock crypto block = (.ok (), parts))
    : parts.evmTxs = block.evmTxs
      ∧ parts.gameActions
        = (payloads crypto block.body.transactions).map Payload.entry := by
  have collected (txs : List SignedTransaction) (start : Partition)
      (succeeds : Loop.run (addTx crypto) txs start = (.ok (), parts))
      : parts.evmTxs = start.evmTxs ++ txs.filter (fun tx => !tx.isGameAction)
        ∧ parts.gameActions = start.gameActions ++ (payloads crypto txs).map Payload.entry := by
    induction txs generalizing start with
    | nil =>
        obtain rfl := (Prod.mk.inj succeeds).2
        simp [payloads]
    | cons tx rest ih =>
        obtain ⟨decided, added⟩ := @addTx_cases crypto tx start
        obtain ⟨next, turn, succeeds⟩ := Loop.run_cons_ok_iff.mp succeeds
        obtain ⟨evmTxs, gameActions⟩ := ih next succeeds
        have here := added (decided.mp (by rw [turn]))
        rw [turn] at here
        have first : payloads crypto (tx :: rest)
            = payloads crypto [tx] ++ payloads crypto rest := by
          rw [payloads, ← List.singleton_append, List.filterMap_append, ← payloads, ← payloads]
        rw [evmTxs, gameActions, here.1, here.2, first, ← @List.singleton_append _ _ rest,
          List.filter_append]
        simp
  exact collected _ _ partitioned

end Partition

namespace Ledger

variable {F : Type} {host : Host F}

/-- The game pass over a block is the counting pass over its game actions. -/
theorem run_gameTx (block : Block) (ledger : Ledger)
    : Loop.run (gameTx host) block.body.transactions ledger
      = Loop.run (countTx host) block.gameTxs ledger := by
  have filtered := @Loop.run_filter _ _ _ (gameTx host) block.body.transactions ledger
    SignedTransaction.isGameAction
    (fun tx _ other ledger => by simp only [gameTx, other, Bool.false_eq_true, if_false])
  rw [filtered, Block.gameTxs]
  have same : ∀ tx ∈ block.gameTxs, ∀ ledger, gameTx host tx ledger = countTx host tx ledger :=
    fun tx member ledger => by
      simp only [gameTx, (List.mem_filter.mp member).2, if_true]
  exact Loop.run_congr same ledger

end Ledger

namespace Block

theorem isGameAction_of_mem_evmTxs (block : Block) {tx : SignedTransaction}
    (member : tx ∈ block.evmTxs)
    : tx.isGameAction = false := by
  simpa using (List.mem_filter.mp member).2

/-- The two passes cover the transactions of a block. -/
theorem forall_transactions_iff {block : Block} {p : SignedTransaction → Prop}
    : (∀ tx ∈ block.body.transactions, p tx)
      ↔ (∀ tx ∈ block.evmTxs, p tx) ∧ ∀ tx ∈ block.gameTxs, p tx := by
  simp only [evmTxs, gameTxs, List.mem_filter]
  constructor
  · intro all
    exact ⟨fun tx member => all tx member.1, fun tx member => all tx member.1⟩
  · rintro ⟨evm, game⟩ tx member
    cases isGame : tx.isGameAction with
    | true => exact game tx ⟨member, isGame⟩
    | false => exact evm tx ⟨member, by simp [isGame]⟩

end Block

open AccountView

namespace EvmExecutor

variable (codec : Codec Account) (database : Database)

/-- A flush can read the same addresses before and after, also when it stops early. -/
theorem sameReadable_flushToState (order : IterationOrder Address DbAccount)
    (evm : EvmExecutor) (state : WorldState)
    : SameReadable (state.view codec database)
        ((evm.flushToState codec database order state).2.view codec database) := by
  refine Loop.run_invariant
    (fun (after : WorldState) =>
      SameReadable (state.view codec database) (after.view codec database)) ?_
    (fun _ => Iff.rfl)
  intro address _ middle held
  apply held.trans
  unfold flushAccount
  cases evm.db.accounts.lookup address with
  | none => exact fun _ => Iff.rfl
  | some entry =>
      have result := WorldState.getOrCreateAccount_result codec database address middle
      have same := WorldState.view_getOrCreateAccount codec database address middle
      rcases read : middle.getOrCreateAccount codec database address with ⟨_ | account, next⟩
      · simp only [read] at same ⊢
        simp only [same]
        exact fun _ => Iff.rfl
      · simp only [read] at result same ⊢
        have readable := readableAt_iff.mpr ⟨account, result.symm⟩
        rw [WorldState.view_putAccount, same]
        intro other
        by_cases here : other = address
        · subst here
          simp only [readable, iff_true]
          exact ⟨_, Function.update_self ..⟩
        · unfold AccountView.ReadableAt
          rw [Function.update_of_ne here]

end EvmExecutor

namespace Execution

variable {F : Type} {host : Host F} {db : Database}

/-- The EVM pass of a block, from its start, is the pass over the loaded ledger. -/
theorem runEvm_start (block : Block) (gasUsed : UInt64) (evm : EvmExecutor) (state : WorldState)
    : ((start host db block.evmTxs gasUsed evm state).runEvm host db block block.evmTxs).1
        = (Loop.run (Ledger.evmTx host evm.chainId) block.evmTxs
            (.start host block.evmTxs (state.view host.account db))).1
      ∧ ((start host db block.evmTxs gasUsed evm state).runEvm host db block
            block.evmTxs).2.ledger host db
        = (Loop.run (Ledger.evmTx host evm.chainId) block.evmTxs
            (.start host block.evmTxs (state.view host.account db))).2 := by
  obtain ⟨started, sameId⟩ := start_refines host db block.evmTxs gasUsed evm state
  obtain ⟨result, ledger, _⟩ := runEvm_refines host db block
    (fun _ member => block.isGameAction_of_mem_evmTxs member) sameId
  rw [started] at result ledger
  exact ⟨result, ledger⟩

/-- The EVM pass succeeds exactly when the senders of its transactions can be read, and does
not change what can be read.
-/
theorem runEvm_ok_iff (block : Block) (gasUsed : UInt64) (evm : EvmExecutor)
    (state : WorldState)
    : (((start host db block.evmTxs gasUsed evm state).runEvm host db block block.evmTxs).1
          = .ok ()
        ↔ ∀ tx ∈ block.evmTxs, SenderReadable host.crypto (state.view host.account db) tx)
      ∧ SameReadable (state.view host.account db)
          (((start host db block.evmTxs gasUsed evm state).runEvm host db block
            block.evmTxs).2.state.view host.account db) := by
  obtain ⟨result, ledger⟩ := @runEvm_start F host db block gasUsed evm state
  have counts := Ledger.transact_countsNonce host evm.chainId
  have loaded := Ledger.start_view host block.evmTxs (state.view host.account db)
  have decided := @Ledger.CountsNonce.run_ok_iff F host _ block.evmTxs counts
    (.start host block.evmTxs (state.view host.account db))
  have kept := (counts.run host block.evmTxs
    (.start host block.evmTxs (state.view host.account db))).2
  rw [loaded] at decided kept
  rw [result]
  refine ⟨decided, ?_⟩
  exact (congrArg (fun l : Ledger => SameReadable _ l.view) ledger).mpr kept

/-- The game pass succeeds exactly when the senders of the game actions can be read. -/
theorem runGame_ok_iff (block : Block) (execution : Execution)
    : (execution.runGame host db block).1 = .ok ()
      ↔ ∀ tx ∈ block.gameTxs,
          SenderReadable host.crypto (execution.state.view host.account db) tx := by
  rw [(runGame_refines host db block execution).1, Ledger.run_gameTx]
  exact Ledger.countAction_countsNonce.run_ok_iff _

end Execution

namespace Chain

variable {F : Type} [F32 F] {host : Host F} {order : BlockOrder F} {block : Block}

/-- What the game engine is told by the block. -/
def gameEntries (crypto : Crypto) (block : Block) : List (String × GameAction) :=
  (Partition.payloads crypto block.body.transactions).map Payload.entry

/-- The world of the node lets the actions of the block through. -/
def AdmitsActions (crypto : Crypto) (block : Block) (chain : Chain F) : Prop :=
  chain.gameWorld.ecs.roster.Admits (gameEntries crypto block)

omit [F32 F] in
/-- Where every sender can be recovered, the block is partitioned. -/
theorem partitioned_of_readable {view : AccountView StateError}
    (readable : ∀ tx ∈ block.body.transactions, SenderReadable host.crypto view tx)
    : ∃ parts,
        Partition.ofBlock host.crypto block = (.ok (), parts)
        ∧ parts.evmTxs = block.evmTxs
        ∧ parts.gameActions = gameEntries host.crypto block := by
  have recovers : ∀ tx ∈ block.body.transactions, Partition.Recovers host.crypto tx := by
    intro tx member _ _
    obtain ⟨sender, recovered, _⟩ := readable tx member
    exact ⟨sender, recovered⟩
  have succeeds := Partition.ofBlock_ok_iff.mpr recovers
  rcases partitioned : Partition.ofBlock host.crypto block with ⟨result, parts⟩
  rw [partitioned] at succeeds
  subst succeeds
  exact ⟨parts, rfl, Partition.ofBlock_parts partitioned⟩

/-- A block is accepted exactly when it follows the head, the sender of each transaction can
be recovered and read, and each action is admitted at its turn.
-/
theorem applyBlock_accepts_iff {chain : Chain F}
    : (∃ next, chain.applyBlock host order block = (.ok (), next))
      ↔ (∃ parent,
          chain.head = some parent
          ∧ chain.consensus.verifyBlock host.crypto block parent = .ok ())
        ∧ (∀ tx ∈ block.body.transactions, SenderReadable host.crypto (chain.accounts host) tx)
        ∧ chain.AdmitsActions host.crypto block := by
  rw [Block.forall_transactions_iff]
  constructor
  · rintro ⟨next, applied⟩
    obtain ⟨accepted, _⟩ := applyBlock_ok_iff.mp applied
    obtain ⟨evmTxs, gameActions⟩ := Partition.ofBlock_parts accepted.partitioned
    have evmPass := accepted.executes
    have ticks := accepted.ticks
    rw [evmTxs] at evmPass
    rw [gameActions] at ticks
    obtain ⟨evmOk, evmSame⟩ := @Execution.runEvm_ok_iff F host chain.db block
      accepted.parts.totalGasUsed chain.evm chain.state
    rw [evmPass] at evmOk evmSame
    have flushSame := EvmExecutor.sameReadable_flushToState host.account chain.db
      order.evmAccounts accepted.executed.evm accepted.executed.state
    have gameOk := (Execution.runGame_ok_iff block _).mp (congrArg Prod.fst accepted.processes)
    refine ⟨⟨accepted.parent, accepted.head, accepted.verified⟩, ⟨evmOk.mp rfl, ?_⟩, ?_⟩
    · intro tx member
      exact (senderReadable_congr (evmSame.trans flushSame)).mp (gameOk tx member)
    · exact (GameWorld.tick_ok_iff order.tick _ chain.gameWorld).mp ⟨_, congrArg Prod.fst ticks⟩
  · rintro ⟨⟨parent, head, verified⟩, ⟨evmReadable, gameReadable⟩, admits⟩
    obtain ⟨parts, partitioned, evmTxs, gameActions⟩ := partitioned_of_readable
      (Block.forall_transactions_iff.mpr ⟨evmReadable, gameReadable⟩)
    obtain ⟨evmOk, evmSame⟩ := @Execution.runEvm_ok_iff F host chain.db block
      parts.totalGasUsed chain.evm chain.state
    have evmPass := evmOk.mpr evmReadable
    rcases executes
        : Execution.runEvm host chain.db block block.evmTxs
            (Execution.start host chain.db block.evmTxs parts.totalGasUsed chain.evm
              chain.state)
      with ⟨_, executed⟩
    rw [executes] at evmPass evmSame
    subst evmPass
    have flushSame := EvmExecutor.sameReadable_flushToState host.account chain.db
      order.evmAccounts executed.evm executed.state
    have gamePass := (Execution.runGame_ok_iff block
      (executed.flush host chain.db order.evmAccounts)).mpr (fun tx member =>
        (senderReadable_congr (evmSame.trans flushSame)).mpr (gameReadable tx member))
    rcases processes
        : (executed.flush host chain.db order.evmAccounts).runGame host chain.db block
      with ⟨_, processed⟩
    rw [processes] at gamePass
    subst gamePass
    obtain ⟨root, ticked⟩ :=
      (@GameWorld.tick_ok_iff F _ host.crypto host.ecs order.tick _ chain.gameWorld).mpr admits
    refine ⟨_, applyBlock_ok_iff.mpr ⟨⟨parent, parts, executed, processed, root, _, head,
      verified, partitioned, by rw [evmTxs]; exact executes, processes,
      by rw [gameActions]; exact Prod.ext ticked rfl⟩, rfl⟩⟩

end Chain

end VeloChain
