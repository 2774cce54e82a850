import VeloChain.Lib.Stamps
import VeloChain.Node.Growth
import VeloChain.Node.Receipts
import VeloChain.Node.Reference
import VeloChain.Node.Settlement

/-! Which transactions of a run of blocks have an effect, and how often.
A transaction that shows in the accounts takes the current nonce of its sender, like a stamp
from a counter. The tick takes no stamps: there a stale payload acts all the same.
-/

namespace VeloChain

open AccountView

/-- Sender and nonce of a transaction, as far as the sender is known. -/
def SignedTransaction.identity (crypto : Crypto) (tx : SignedTransaction)
    : List (Address × Nat) :=
  match tx.sender crypto with
  | .ok sender => [(sender, tx.transaction.nonce)]
  | .error _ => []

open Classical in
/-- The identity of a transaction that shows. -/
noncomputable def SignedTransaction.influence (crypto : Crypto) (tx : SignedTransaction)
    (shows : Prop) : List (Address × Nat) :=
  if shows then tx.identity crypto else []

theorem SignedTransaction.influence_sublist {crypto : Crypto} {tx : SignedTransaction}
    {shows may : Prop} (h : shows → may)
    : (tx.influence crypto shows).Sublist (tx.influence crypto may) := by
  unfold influence
  by_cases holds : shows
  · rw [if_pos holds, if_pos (h holds)]
  · rw [if_neg holds]
    exact List.nil_sublist _

/-- A game action that is counted gets a receipt of success. -/
theorem Execution.stale_of_failed {F : Type} {host : Host F} {db : Database} {block : Block}
    {tx : SignedTransaction} {before after : Execution} {receipt : TransactionReceipt}
    (call : processGameTx host db block tx before = (.ok (), after))
    (isGame : tx.isGameAction = true) (pushed : after.receipts = before.receipts ++ [receipt])
    (failed : receipt.success = false)
    : Stale host.crypto (before.ledger host db).view tx := by
  obtain ⟨sender, nonce, other, recovered, value, appended, _, _, success⟩ :=
    processGameTx_cases isGame call
  obtain rfl := List.cons.inj (List.append_cancel_left (pushed.symm.trans appended)) |>.1
  refine ⟨sender, nonce, recovered, value, fun same => ?_⟩
  rw [success.mpr same] at failed
  exact absurd failed (by decide)

namespace Chain

variable {F : Type} [F32 F]

-----------------------------------------------------------------------------------------
-- Identities with an effect in a block
-----------------------------------------------------------------------------------------

section Definitions

variable (host : Host F) (order : BlockOrder F) (block : Block) (chain : Chain F)

/-- The accounts at a moment of the EVM pass, as the flush at its end will leave them. -/
def settledAt (execution : Execution) : AccountView StateError :=
  (execution.ledger host chain.db).settled (chain.accounts host)
    (chain.evmEnd host block).evm.db

/-- The turn of an EVM transaction shows in the accounts. -/
def EvmShows (turn : Loop.Turn SignedTransaction Execution) : Prop :=
  (chain.settledAt host block turn.after).accountOrDefault
    ≠ (chain.settledAt host block turn.before).accountOrDefault

/-- The two turns of a game action show in the accounts or in the entities. -/
def GameShows
    (turns
      : Loop.Turn SignedTransaction Execution
        × Loop.Turn SignedTransaction (Nat × EcsWorld F))
    : Prop :=
  (turns.1.after.ledger host chain.db).view.accountOrDefault
      ≠ (turns.1.before.ledger host chain.db).view.accountOrDefault
    ∨ turns.2.after.2 ≠ turns.2.before.2

/-- The turns of each transaction in the game pass and in the tick. -/
def gameTurnPairs
    : List
        (Loop.Turn SignedTransaction Execution
          × Loop.Turn SignedTransaction (Nat × EcsWorld F)) :=
  (chain.gameTurns host order block).zip (chain.actTurns host order block)

/-- The identity of an EVM transaction whose turn shows. -/
noncomputable def evmInfluence (turn : Loop.Turn SignedTransaction Execution)
    : List (Address × Nat) :=
  turn.item.influence host.crypto (chain.EvmShows host block turn)

/-- The identity of a game action one of whose turns shows. -/
noncomputable def gameInfluence
    (turns
      : Loop.Turn SignedTransaction Execution
        × Loop.Turn SignedTransaction (Nat × EcsWorld F))
    : List (Address × Nat) :=
  turns.1.item.influence host.crypto (chain.GameShows host turns)

/-- The identities of the transactions of a block that have an effect, occurrence by
occurrence.
-/
noncomputable def influences : List (Address × Nat) :=
  (chain.evmTurns host block).flatMap (chain.evmInfluence host block)
    ++ (chain.gameTurnPairs host order block).flatMap (chain.gameInfluence host)

/-- Game actions with a receipt of failure have no effect. -/
def FailuresInert : Prop :=
  ∀ turns ∈ chain.gameTurnPairs host order block, turns.1.item.isGameAction = true →
    ∀ receipt, turns.1.after.receipts = turns.1.before.receipts ++ [receipt]
      → receipt.success = false → ¬ chain.GameShows host turns

/-- A stale payload finds nothing to change, and the EVM pass gives no entry to an account it
has not loaded but that has a nonce.
-/
structure Guarded : Prop where
  payloads
    : ∀ turns ∈ chain.gameTurnPairs host order block,
        Stale host.crypto (turns.1.before.ledger host chain.db).view turns.1.item →
        ∀ payload, Partition.payload host.crypto turns.1.item = some payload →
          GameWorld.Inert (order.tick.action turns.2.before.1) (debugAddress payload.sender)
            turns.2.before.2 payload.action
  fresh
    : ∀ turn ∈ chain.evmTurns host block, ∀ address ∈ turn.after.evm.db.accounts,
        address ∉ turn.before.evm.db.accounts → (chain.accounts host).nonce address = .ok 0

/-- Over a whole run no identity has an effect twice, and no failed game action has one. -/
structure SingleEffect (blocks : List (Block × BlockOrder F)) (chain : Chain F) : Prop where
  once
    : ((Loop.turns (importBlock host) blocks chain).flatMap (fun turn =>
        turn.before.influences host turn.item.2 turn.item.1)).Nodup
  failures
    : ∀ turn ∈ Loop.turns (importBlock host) blocks chain,
        turn.before.FailuresInert host turn.item.2 turn.item.1

end Definitions

variable {host : Host F} {order : BlockOrder F} {block : Block} {chain : Chain F}

omit [F32 F] in
/-- What a transaction that may show takes from the nonces: nothing, or the nonce of its
sender.
-/
theorem influence_drawn {tx : SignedTransaction} {shows : Prop} {before after : Address → Nat}
    (monotone : ∀ address, before address ≤ after address)
    (taken
      : shows → ∃ sender,
          tx.sender host.crypto = .ok sender
          ∧ before sender = tx.transaction.nonce
          ∧ tx.transaction.nonce < after sender)
    : Stamps.Drawn before after (tx.influence host.crypto shows) := by
  unfold SignedTransaction.influence
  by_cases holds : shows
  · obtain ⟨sender, recovered, reading, up⟩ := taken holds
    rw [if_pos holds, SignedTransaction.identity, recovered]
    simp only [← reading] at up ⊢
    exact .single monotone up
  · rw [if_neg holds]
    exact .idle monotone

-----------------------------------------------------------------------------------------
-- A guarded block draws its identities from the nonces
-----------------------------------------------------------------------------------------

section OneBlock

variable (accepted : Accepted host order block chain)

include accepted

/-- The surroundings of each turn of a guarded EVM pass. -/
theorem Accepted.turnScope (laws : host.revm.NonceLaws) (guarded : Guarded host order block chain)
    {turn : Loop.Turn SignedTransaction Ledger}
    (member
      : turn ∈ Loop.turns (Ledger.evmTx host chain.evm.chainId) block.evmTxs
          (.start host block.evmTxs (chain.accounts host)))
    : Ledger.TurnScope host block.evmTxs (chain.accounts host) (chain.evmEnd host block).evm.db
        turn.before turn.after := by
  obtain ⟨underway, within⟩ := accepted.turn_within laws member
  refine ⟨underway, within, ?_⟩
  rw [← accepted.evmTurns_ledgers.1] at member
  obtain ⟨original, inside, rfl⟩ := List.mem_map.mp member
  exact guarded.fresh original inside

/-- The identities with an effect in the EVM pass are taken between the accounts before the
block and the flushed ones.
-/
theorem Accepted.evm_drawn (laws : host.revm.NonceLaws)
    (readable : (chain.accounts host).Readable) (guarded : Guarded host order block chain)
    : Stamps.Drawn (chain.accounts host).nonceAt
        ((chain.evmEnd host block).ledger host chain.db).flush.view.nonceAt
        ((chain.evmTurns host block).flatMap (chain.evmInfluence host block)) := by
  obtain ⟨turns, succeeds⟩ := accepted.evmTurns_ledgers
  let final := (chain.evmEnd host block).evm.db
  -- nonces may fall in the flush, so the stamps are counted against the settled accounts
  let settle := fun ledger : Ledger => ledger.settled (chain.accounts host) final
  let stamps : Loop.Turn SignedTransaction Ledger → List (Address × Nat) := fun turn =>
    turn.item.influence host.crypto
      ((settle turn.after).accountOrDefault ≠ (settle turn.before).accountOrDefault)
  have draws
      : ∀ turn ∈ Loop.turns (Ledger.evmTx host chain.evm.chainId) block.evmTxs
            (.start host block.evmTxs (chain.accounts host)),
          Stamps.Drawn (settle turn.before).nonceAt (settle turn.after).nonceAt
            (stamps turn) := by
    intro turn member
    have scope := accepted.turnScope laws guarded member
    obtain ⟨inBlock, call⟩ := Loop.turns_ok succeeds member
    have isAfter : turn.after = (turn.before.evmTx host chain.evm.chainId turn.item).2 :=
      (congrArg Prod.snd call).symm
    rw [isAfter] at scope
    apply influence_drawn
    · rw [isAfter]
      exact scope.nonceAt_le laws readable
    · rw [isAfter]
      exact scope.taken laws readable inBlock
  have drawn := Stamps.drawn_turns (fun ledger => (settle ledger).nonceAt) stamps succeeds draws
  have same
      : (chain.evmTurns host block).flatMap (chain.evmInfluence host block)
        = (Loop.turns (Ledger.evmTx host chain.evm.chainId) block.evmTxs
            (.start host block.evmTxs (chain.accounts host))).flatMap stamps := by
    rw [← turns, List.flatMap_map]
    rfl
  have begins
      : (settle (.start host block.evmTxs (chain.accounts host))).nonceAt
        = (chain.accounts host).nonceAt := by
    funext address
    exact nonceAt_congr (congrFun (Ledger.settled_start _ _ _) address)
  have ends
      : (settle ((chain.evmEnd host block).ledger host chain.db)).nonceAt
        = ((chain.evmEnd host block).ledger host chain.db).flush.view.nonceAt := by
    funext address
    have sameCode := (accepted.underway_end laws).sameCode
    exact nonceAt_congr (congrFun (Ledger.settled_end sameCode) address)
  rw [same]
  simpa only [begins, ends] using drawn

/-- A pair of turns that shows is a game action with the nonce of its sender. -/
theorem Accepted.due_of_shows (guarded : Guarded host order block chain)
    {turns
      : Loop.Turn SignedTransaction Execution
        × Loop.Turn SignedTransaction (Nat × EcsWorld F)}
    (member : turns ∈ chain.gameTurnPairs host order block)
    (shows : chain.GameShows host turns)
    : ∃ sender,
        Due host.crypto (turns.1.before.ledger host chain.db).view turns.1.item sender
        ∧ turns.1.after.ledger host chain.db
          = (turns.1.before.ledger host chain.db).countAction sender := by
  have inGame : turns.1 ∈ chain.gameTurns host order block := (List.of_mem_zip member).1
  have inTick : turns.2 ∈ chain.actTurns host order block := (List.of_mem_zip member).2
  obtain ⟨gameItems, actItems⟩ := accepted.turns_items
  have sameItem := Loop.item_eq_of_mem_zip (gameItems.trans actItems.symm) turns member
  have counts := (accepted.gameTurn inGame).2
  unfold Ledger.gameTx at counts
  by_contra notDue
  have stale
      : turns.1.item.isGameAction = true
        → Stale host.crypto (turns.1.before.ledger host chain.db).view turns.1.item := by
    intro isGame
    rw [if_pos isGame] at counts
    rcases Ledger.guarded_ok_cases counts with ⟨stale, _⟩ | due
    · exact stale
    · exact absurd due notDue
  have sameAccounts := (accepted.gameTurn_unchanged_iff inGame).mpr stale
  have sameEntities := (accepted.actTurn_unchanged_iff inTick).mpr (by
    intro payload carried
    rw [← sameItem] at carried
    exact guarded.payloads turns member (stale (Partition.isGameAction_of_payload carried))
      payload carried)
  cases shows with
  | inl moved => exact moved (by rw [sameAccounts])
  | inr acted => exact acted sameEntities

/-- The identities of game actions with an effect are taken between the flushed accounts and
those after the block.
-/
theorem Accepted.game_drawn (readable : (chain.accounts host).Readable)
    (guarded : Guarded host order block chain)
    : Stamps.Drawn ((chain.evmEnd host block).ledger host chain.db).flush.view.nonceAt
        (accepted.processed.ledger host chain.db).view.nonceAt
        ((chain.gameTurnPairs host order block).flatMap (chain.gameInfluence host)) := by
  let due (turn : Loop.Turn SignedTransaction Execution) : Prop :=
    ∃ sender,
      Due host.crypto (turn.before.ledger host chain.db).view turn.item sender
      ∧ turn.after.ledger host chain.db
        = (turn.before.ledger host chain.db).countAction sender
  have drawn := Stamps.drawn_turns
    (fun x : Execution => (x.ledger host chain.db).view.nonceAt)
    (fun turn => turn.item.influence host.crypto (due turn)) accepted.game_ok (by
      intro turn member
      apply influence_drawn
      · have counts := (accepted.gameTurn member).2
        have le := @Ledger.nonceLe_gameTx F host turn.item (turn.before.ledger host chain.db)
        rw [counts] at le
        exact le.nonceAt_le
      · rintro ⟨sender, counted, effect⟩
        refine ⟨sender, counted.recovered, nonceAt_eq counted.nonce, ?_⟩
        have raised := Ledger.countAction_countsNonce.self sender turn.item _ _ counted.nonce
        rw [effect, nonceAt_eq raised]
        exact Nat.lt_succ_self _)
  have fewer
      : ((chain.gameTurnPairs host order block).flatMap (chain.gameInfluence host)).Sublist
          ((chain.gameTurns host order block).flatMap (fun turn =>
            turn.item.influence host.crypto (due turn))) :=
    Stamps.flatMap_zip_sublist (fun turns member =>
      SignedTransaction.influence_sublist (accepted.due_of_shows guarded member))
  have begins := congrArg Ledger.view (accepted.gameStart_ledger readable)
  rw [begins] at drawn
  exact drawn.sublist fewer

/-- The identities with an effect in a guarded block are taken between the accounts before
and after it.
-/
theorem Accepted.influences_drawn (laws : host.revm.NonceLaws)
    (sound : host.account.RoundTrips) (readable : (chain.accounts host).Readable)
    (guarded : Guarded host order block chain)
    : Stamps.Drawn (chain.accounts host).nonceAt (accepted.result.accounts host).nonceAt
        (chain.influences host order block) := by
  have committed := accounts_finalize order block accepted.processed accepted.world chain sound
  rw [Accepted.result, committed]
  exact (accepted.evm_drawn laws readable guarded).append
    (accepted.game_drawn readable guarded)

/-- In a guarded block a failed game action has no effect. -/
theorem Accepted.failuresInert (guarded : Guarded host order block chain)
    : FailuresInert host order block chain := by
  intro turns member isGame receipt pushed failed shows
  obtain ⟨sender, due, _⟩ := accepted.due_of_shows guarded member shows
  have call := (accepted.gameTurn (List.of_mem_zip member).1).1
  exact due.not_stale (Execution.stale_of_failed call isGame pushed failed)

end OneBlock

-----------------------------------------------------------------------------------------
-- Runs of guarded blocks
-----------------------------------------------------------------------------------------

/-- Over a run of applied blocks in which the guards hold, every identity has an effect at
most once: each block draws its identities from the nonces.
-/
theorem singleEffect_run (laws : host.revm.NonceLaws) (sound : host.account.RoundTrips)
    (readable : chain.AccountsReadable host) {blocks : List (Block × BlockOrder F)}
    {final : Chain F} (applied : Loop.run (importBlock host) blocks chain = (.ok (), final))
    (guarded
      : ∀ turn ∈ Loop.turns (importBlock host) blocks chain,
          Guarded host turn.item.2 turn.item.1 turn.before)
    : SingleEffect host blocks chain := by
  have readableAt
      : ∀ turn ∈ Loop.turns (importBlock host) blocks chain,
          turn.before.AccountsReadable host :=
    Loop.turns_invariant (AccountsReadable host)
      (fun _ _ _ held => held.applyBlock sound) readable
  constructor
  · have draws
        : ∀ turn ∈ Loop.turns (importBlock host) blocks chain,
            Stamps.Drawn (turn.before.accounts host).nonceAt (turn.after.accounts host).nonceAt
              (turn.before.influences host turn.item.2 turn.item.1) := by
      intro turn member
      obtain ⟨_, call⟩ := Loop.turns_ok applied member
      obtain ⟨accepted, result⟩ := applyBlock_ok_iff.mp call
      rw [result]
      exact accepted.influences_drawn laws sound (readableAt turn member).accounts
        (guarded turn member)
    exact (Stamps.drawn_turns (fun reached => (reached.accounts host).nonceAt) _ applied
      draws).nodup
  · intro turn member
    obtain ⟨_, call⟩ := Loop.turns_ok applied member
    obtain ⟨accepted, _⟩ := applyBlock_ok_iff.mp call
    exact accepted.failuresInert (guarded turn member)

/-- A payload that changes the entities gives its identity to the block. -/
theorem mem_influences_of_acted
    {turns
      : Loop.Turn SignedTransaction Execution
        × Loop.Turn SignedTransaction (Nat × EcsWorld F)}
    (member : turns ∈ chain.gameTurnPairs host order block)
    (acted : turns.2.after.2 ≠ turns.2.before.2) {identity : Address × Nat}
    (known : turns.1.item.identity host.crypto = [identity])
    : identity ∈ chain.influences host order block := by
  refine List.mem_append_right _ (List.mem_flatMap.mpr ⟨turns, member, ?_⟩)
  have shows : GameShows host chain turns := Or.inr acted
  rw [gameInfluence, SignedTransaction.influence, if_pos shows, known]
  exact List.mem_singleton_self identity

/-- A move, another one by the same player, and the first one again. -/
def replayedMove : List (Block × BlockOrder Milli) :=
  let first : SignedTransaction := .action 9 1 0 (.move 1000 0 0)
  let second : SignedTransaction := .action 9 1 1 (.move 2000 0 0)
  let one : Block := .following (.genesis 0) [first]
  let two : Block := .following one.header [second]
  let three : Block := .following two.header [first]
  [one, two, three].map (fun block => (block, .ascending Milli))

/-- A block with a stale transfer beside a due one. -/
def countedMove : List (Block × BlockOrder Milli) :=
  [ ( .following (.genesis 0)
        [.transfer 9 1 0 9 5, .transfer 9 1 0 9 5, .action 9 1 1 (.move 1000 0 0)],
      .ascending Milli ) ]

/-- A replayed move fails its nonce check but moves the player back. -/
theorem singleEffect_fails_on_replay
    : ¬ ∀ (host : Host Milli) (blocks : List (Block × BlockOrder Milli))
          (chain final : Chain Milli),
        host.revm.NonceLaws
        → host.account.RoundTrips
        → chain.AccountsReadable host
        → Loop.run (importBlock host) blocks chain = (.ok (), final)
        → SingleEffect host blocks chain := by
  intro claimed
  let host : Host Milli := .reference []
  let chain : Chain Milli := .reference host .reference 9 0
  have applied : (Loop.run (importBlock host) replayedMove chain).1 = .ok () := by
    decide +kernel
  have effect := claimed host replayedMove chain _ Revm.transfers_nonceLaws
    Account.wordCodec_roundTrips (Account.wordCodec_readable _) (Loop.eq_of_ok applied)
  have earlier
      : ∃ turn ∈ Loop.turns (importBlock host) (replayedMove.take 2) chain,
          ∃ turns ∈ turn.before.gameTurnPairs host turn.item.2 turn.item.1,
            turns.2.after.2.getComponents 1 ≠ turns.2.before.2.getComponents 1
            ∧ turns.1.item.identity host.crypto = [(9, 0)] := by
    decide +kernel
  have later
      : ∃ turn ∈ Loop.turns (importBlock host) (replayedMove.drop 2)
            (Loop.run (importBlock host) (replayedMove.take 2) chain).2,
          ∃ turns ∈ turn.before.gameTurnPairs host turn.item.2 turn.item.1,
            turns.2.after.2.getComponents 1 ≠ turns.2.before.2.getComponents 1
            ∧ turns.1.item.identity host.crypto = [(9, 0)] := by
    decide +kernel
  have split := @Loop.turns_append_ok _ _ _ (importBlock host) (replayedMove.take 2)
    (replayedMove.drop 2) chain _ (Loop.eq_of_ok (by decide +kernel))
  rw [List.take_append_drop] at split
  have once := effect.once
  rw [split, List.flatMap_append] at once
  obtain ⟨turn, inFirst, turns, member, acted, known⟩ := earlier
  obtain ⟨turn', inSecond, turns', member', acted', known'⟩ := later
  have mentioned := mem_influences_of_acted member
    (fun same => acted (congrArg (·.getComponents 1) same)) known
  have again := mem_influences_of_acted member'
    (fun same => acted' (congrArg (·.getComponents 1) same)) known'
  exact (List.nodup_append.mp once).2.2 _ (List.mem_flatMap.mpr ⟨turn, inFirst, mentioned⟩) _
    (List.mem_flatMap.mpr ⟨turn', inSecond, again⟩) rfl

theorem singleEffect_run_countedMove
    : SingleEffect (.reference []) countedMove
        (.reference (.reference []) .reference 9 1000) := by
  let host : Host Milli := .reference []
  let chain : Chain Milli := .reference host .reference 9 1000
  have applied : (Loop.run (importBlock host) countedMove chain).1 = .ok () := by
    decide +kernel
  have dueMoves
      : ∀ turn ∈ Loop.turns (importBlock host) countedMove chain,
          ∀ turns ∈ turn.before.gameTurnPairs host turn.item.2 turn.item.1,
            turns.1.item.isGameAction = true →
              turns.1.item.identity host.crypto
                = [(9, (turns.1.before.ledger host turn.before.db).view.nonceAt 9)] := by
    decide +kernel
  have loaded
      : ∀ turn ∈ Loop.turns (importBlock host) countedMove chain,
          ∀ evmTurn ∈ turn.before.evmTurns host turn.item.1,
            (BlockOrder.ascending Milli).evmAccounts.keys evmTurn.after.evm.db.accounts
              = (BlockOrder.ascending Milli).evmAccounts.keys evmTurn.before.evm.db.accounts := by
    decide +kernel
  have readable : AccountsReadable host chain := Account.wordCodec_readable chain.db
  refine singleEffect_run Revm.transfers_nonceLaws Account.wordCodec_roundTrips readable
    (Loop.eq_of_ok applied) ?_
  intro turn member
  constructor
  · rintro turns inGame ⟨sender, nonce, recovered, read, stale⟩ payload carried
    have known := dueMoves turn member turns inGame (Partition.isGameAction_of_payload carried)
    rw [SignedTransaction.identity, recovered] at known
    simp only [List.cons.injEq, Prod.mk.injEq, and_true] at known
    obtain ⟨rfl, counted⟩ := known
    exact absurd (counted.trans (nonceAt_eq read)) stale
  · intro evmTurn inEvm address after before
    have same := loaded turn member evmTurn inEvm
    rw [← IterationOrder.mem_keys (BlockOrder.ascending Milli).evmAccounts, same,
      IterationOrder.mem_keys] at after
    exact absurd after before

end Chain

end VeloChain
