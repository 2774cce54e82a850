import VeloChain.Node.Acceptance
import VeloChain.Node.BranchRun
import VeloChain.Node.HashIntegrity
import VeloChain.TxPool.Slots

/-! What a reorganization does to the transactions of the blocks that it reverts.
They all go back to the pool, where a slot may be taken by another transaction, and the new blocks
take out what they include. So their slots stay filled, in the pool or in the new blocks.
-/

namespace VeloChain

namespace Chain

variable {F : Type} {host : Host F}

/-- The transactions of the block that is stored at a number. -/
def txsAt (host : Host F) (chain : Chain F) (number : UInt64) : List SignedTransaction :=
  match chain.getBlockByNumber host number with
  | .ok (some block) => block.body.transactions
  | _ => []

/-- The transactions of the blocks that a reorganization reverts, in the order in which they are
returned to the pool.
-/
def revertedTxs (host : Host F) (forkPoint : UInt64) (chain : Chain F) : List SignedTransaction :=
  (revertedNumbers forkPoint chain.blockNumber).flatMap (chain.txsAt host)

/-- The transactions of some blocks of a branch. -/
def branchTxs (blocks : List (Block × BlockOrder F)) : List SignedTransaction :=
  blocks.flatMap (fun entry => entry.1.body.transactions)

/-- No slot of a reverted transaction is lost, a transaction that is alone in its slot is not
lost itself, and the pool has nothing that the new blocks include.
-/
structure KeepsTransactions (crypto : Crypto) (before : TransactionPool)
    (reverted applied : List SignedTransaction) (after : TransactionPool) : Prop where
  slots
    : ∀ tx ∈ reverted, ∃ other,
        (after.Contains other ∨ other ∈ applied) ∧ other.SameSlot crypto tx
  itself
    : ∀ tx ∈ reverted,
        (∀ other, before.Contains other ∨ other ∈ reverted ∨ other ∈ applied →
          other.SameSlot crypto tx → other = tx)
        → after.Contains tx ∨ tx ∈ applied
  included
    : ∀ tx ∈ applied,
        ¬ after.Contains tx
        ∧ ∀ sender nonce, (after.queueOf sender).txs.lookup nonce ≠ some tx

/-- The senders of all stored transactions can be recovered. -/
def StoredSenders (host : Host F) (db : Database) : Prop :=
  ∀ hash body, db.getBody host.blocks hash = .ok (some body) →
    ∀ tx ∈ body.transactions, ∃ sender, tx.sender host.crypto = .ok sender

-----------------------------------------------------------------------------------------
-- Stored transactions
-----------------------------------------------------------------------------------------

theorem StoredSenders.congr {db db' : Database} (stored : StoredSenders host db)
    (same : db'.contents .bodies = db.contents .bodies)
    : StoredSenders host db' := by
  intro hash body found
  rw [Database.getBody_congr same] at found
  exact stored hash body found

/-- Genesis has no transactions. -/
theorem storedSenders_initGenesis {chain : Chain F}
    (fresh : ∀ hash, chain.db.getBody host.blocks hash = .ok none) {genesis : BlockHeader}
    (readBack : host.blocks.body.RoundTripsAt (Block.new genesis []).body)
    : StoredSenders host (chain.initGenesis host genesis).db := by
  have stored
      : StoredSenders host
          (chain.db.putBlock host.crypto host.blocks (Block.new genesis [])) := ?_
  · exact stored.congr (Database.contents_putLatestBlockNumber (by decide) _ _)
  intro hash body found
  rw [Database.getBody_putBlock host.crypto readBack, fresh] at found
  split at found
  next =>
    obtain rfl := Option.some.inj (Except.ok.inj found)
    intro tx member
    exact absurd member List.not_mem_nil
  next => simp at found

variable [F32 F]

/-- Block application only stores blocks whose senders it has recovered. -/
theorem StoredSenders.applyBlock {chain : Chain F} (stored : StoredSenders host chain.db)
    {block : Block} (readBack : host.blocks.body.RoundTripsAt block.body)
    (order : BlockOrder F)
    : StoredSenders host (chain.applyBlock host order block).2.db := by
  rcases applied : chain.applyBlock host order block with ⟨e | _, next⟩
  · obtain ⟨_, _, _, rfl⟩ := applyBlock_error applied
    exact stored
  · obtain ⟨_, readable, _⟩ := applyBlock_accepts_iff.mp ⟨next, applied⟩
    obtain ⟨accepted, rfl⟩ := applyBlock_ok_iff.mp applied
    intro hash body found
    rw [Accepted.result, getBody_finalize order block _ _ _ readBack] at found
    split at found
    next =>
      obtain rfl := Option.some.inj (Except.ok.inj found)
      intro tx member
      obtain ⟨sender, recovered, _⟩ := readable tx member
      exact ⟨sender, recovered⟩
    next => exact stored hash body found

theorem StoredSenders.run {chain : Chain F} (stored : StoredSenders host chain.db)
    {op : HeadOp F} (readBack : ReadBack host.blocks op.blocks)
    : StoredSenders host (op.run host chain).db := by
  cases op with
  | applyBlock block order =>
      exact stored.applyBlock (readBack block (List.mem_singleton_self _)).2 order
  | executeReorg forkPoint newBlocks =>
      refine executeReorg_invariant (fun state => StoredSenders host state.db) stored ?_ ?_ ?_
      · intro state number _ held
        obtain ⟨txpool, frame⟩ := @revertBlock_frame F host number state
        rwa [frame]
      · intro state block held _ _
        exact held.congr (Database.contents_putLatestBlockNumber (by decide) _ _)
      · intro state entry listed held
        exact held.applyBlock (readBack _ (List.mem_map_of_mem listed)).2 entry.2
  | restoreHead =>
      obtain ⟨head, frame⟩ := @restoreHead_frame F host chain
      rwa [HeadOp.run, frame]

theorem StoredSenders.foldl_run {chain : Chain F} (stored : StoredSenders host chain.db)
    {ops : List (HeadOp F)} (readBack : ReadBack host.blocks (ops.flatMap HeadOp.blocks))
    : StoredSenders host (ops.foldl (HeadOp.run host) chain).db := by
  induction ops generalizing chain with
  | nil => exact stored
  | cons op rest ih =>
      rw [List.flatMap_cons] at readBack
      exact ih (stored.run (fun block member => readBack block (List.mem_append_left _ member)))
        (fun block member => readBack block (List.mem_append_right _ member))

omit [F32 F] in
theorem StoredSenders.txsAt {chain : Chain F} (stored : StoredSenders host chain.db)
    {number : UInt64} {tx : SignedTransaction} (member : tx ∈ chain.txsAt host number)
    : ∃ sender, tx.sender host.crypto = .ok sender := by
  unfold Chain.txsAt at member
  split at member
  next block found =>
    unfold getBlockByNumber at found
    split at found
    next => simp at found
    next => simp at found
    next hash _ =>
      unfold getBlockByHash at found
      split at found
      next => simp at found
      next => simp at found
      next =>
        split at found
        next => simp at found
        next => simp at found
        next body isBody =>
          obtain rfl := Option.some.inj (Except.ok.inj found)
          exact stored hash body isBody tx member
  next => simp at member

-----------------------------------------------------------------------------------------
-- The pool
-----------------------------------------------------------------------------------------

omit [F32 F] in
/-- Where all blocks can be read, their transactions are added to the pool. -/
theorem txpool_run_revertBlock {chain : Chain F} {numbers : List UInt64}
    (reads
      : ∀ number ∈ numbers, ∃ block, chain.getBlockByNumber host number = .ok (some block))
    : (Loop.run (revertBlock host) numbers chain).2.txpool
      = chain.txpool.addTransactions host.crypto (numbers.flatMap (chain.txsAt host)) := by
  induction numbers generalizing chain with
  | nil => rfl
  | cons number rest ih =>
      obtain ⟨⟨block, read⟩, later⟩ := List.forall_mem_cons.mp reads
      have txs : chain.txsAt host number = block.body.transactions := by
        simp only [txsAt, read]
      let next : Chain F :=
        { chain with
          txpool := chain.txpool.addTransactions host.crypto block.body.transactions }
      have reverts : chain.revertBlock host number = (.ok (), next) := by
        simp only [revertBlock, read]
        rfl
      rw [Loop.run_cons_ok reverts, @ih next later, List.flatMap_cons, txs]
      exact (List.foldl_append ..).symm

/-- Imported blocks take their transactions out of the pool. -/
theorem txpool_run_importBlock {blocks : List (Block × BlockOrder F)} {chain final : Chain F}
    (imported : Loop.run (importBlock host) blocks chain = (.ok (), final))
    : final.txpool
      = chain.txpool.removeIncluded host.crypto
          ((branchTxs blocks).map SignedTransaction.hash) := by
  induction blocks generalizing chain with
  | nil =>
      obtain rfl := (Prod.mk.inj imported).2
      rfl
  | cons entry rest ih =>
      obtain ⟨next, applied, imported⟩ := Loop.run_cons_ok_iff.mp imported
      obtain ⟨accepted, rfl⟩ := applyBlock_ok_iff.mp applied
      have txs : branchTxs (entry :: rest) = entry.1.body.transactions ++ branchTxs rest :=
        List.flatMap_cons
      rw [ih imported, txs, List.map_append]
      exact (List.foldl_append ..).symm

/-- On an indexed chain the pool gets the reverted transactions, and then loses those of the
blocks that are applied.
-/
theorem Indexed.txpool_executeReorg {headers : Set BlockHeader} {chain : Chain F}
    {head : BlockHeader} (indexed : Indexed host headers chain head) {forkPoint : UInt64}
    (onChain : forkPoint ≤ head.number) (newBlocks : List (Block × BlockOrder F))
    : ∃ outcome final,
        chain.executeReorg host forkPoint newBlocks = (.ok outcome, final)
        ∧ final.txpool
          = (chain.txpool.addTransactions host.crypto
              (chain.revertedTxs host forkPoint)).removeIncluded host.crypto
              ((branchTxs (newBlocks.take outcome.blocksApplied)).map
                SignedTransaction.hash) := by
  obtain ⟨fork, _, _, _, ⟨outcome, result, count⟩, final⟩ :=
    indexed.executeReorg onChain newBlocks
  have returned
      : (chain.unwound host forkPoint fork).txpool
        = chain.txpool.addTransactions host.crypto (chain.revertedTxs host forkPoint) := by
    refine txpool_run_revertBlock fun number member => ?_
    have below := mem_revertedNumbers_le member
    rw [indexed.blockNumber] at below
    obtain ⟨block, read, _⟩ := indexed.getBlockByNumber below
    exact ⟨block, read⟩
  refine ⟨outcome, (chain.executeReorg host forkPoint newBlocks).2, Prod.ext result rfl, ?_⟩
  rw [final, ← returned]
  obtain ⟨after, imported, counts⟩
      | ⟨applied, failing, rest, middle, e, stop, rfl, imported, fails, counts⟩ :=
    run_applyBranchBlock newBlocks 0 (chain.unwound host forkPoint fork)
  · rw [count, counts, Nat.zero_add, List.take_length]
    exact txpool_run_importBlock imported
  · rw [count, counts, Nat.zero_add, List.take_left']
    · obtain ⟨_, _, _, rfl⟩ := applyBlock_error fails
      exact (txpool_run_importBlock imported :)
    · rfl

omit [F32 F] in
/-- A transaction out of a collection is known by its hash. -/
theorem eq_of_genuine {crypto : Crypto} {known : Set SignedTransaction}
    (apart : TellsApart crypto known) {tx tx' : SignedTransaction}
    (genuine : tx.Genuine crypto known) (genuine' : tx'.Genuine crypto known)
    (sameHash : tx.hash = tx'.hash)
    : tx = tx' := by
  obtain ⟨transaction, signature⟩ := apart.sameContent genuine genuine' sameHash
  cases tx
  cases tx'
  simp_all

omit [F32 F] in
/-- Transactions that go into a pool with room and are then included keep their slots. -/
theorem keepsTransactions_of_consistent {crypto : Crypto} {maxSize : Nat}
    {pool : TransactionPool} (consistent : pool.Consistent crypto maxSize)
    {known : Set SignedTransaction} (apart : TellsApart crypto known)
    (holds : pool.Holds (SignedTransaction.Genuine crypto known))
    {reverted applied : List SignedTransaction}
    (isReverted : ∀ tx ∈ reverted, tx.Genuine crypto known)
    (isApplied : ∀ tx ∈ applied, tx.Genuine crypto known)
    (recovers : ∀ tx ∈ reverted, ∃ sender, tx.sender crypto = .ok sender)
    (room : pool.byHash.keys.card + reverted.length ≤ maxSize)
    : KeepsTransactions crypto pool reverted applied
        ((pool.addTransactions crypto reverted).removeIncluded crypto
          (applied.map SignedTransaction.hash)) := by
  have same (tx tx' : SignedTransaction) (genuine : tx.Genuine crypto known)
      (genuine' : tx'.Genuine crypto known) (sameHash : tx.hash = tx'.hash)
      : tx = tx' :=
    eq_of_genuine apart genuine genuine' sameHash
  let returned := pool.addTransactions crypto reverted
  have contents
      : returned.Holds
          (fun tx => tx.Genuine crypto known ∧ (pool.Contains tx ∨ tx ∈ reverted)) := by
    refine TransactionPool.Holds.addTransactions ⟨?_, ?_⟩
      (fun tx member => ⟨isReverted tx member, Or.inr member⟩)
    · intro key tx found
      obtain ⟨rfl, genuine⟩ := holds.hashed key tx found
      exact ⟨rfl, genuine, Or.inl found⟩
    · intro sender nonce tx found
      exact ⟨holds.queued sender nonce tx found,
        Or.inl (consistent.same.queued sender nonce tx found).2.2⟩
  -- what fills a slot after the additions stays in the pool, or is included
  have slots
      : ∀ tx ∈ reverted, ∃ other,
          returned.Contains other
          ∧ other.SameSlot crypto tx
          ∧ ((returned.removeIncluded crypto (applied.map SignedTransaction.hash)).Contains other
            ∨ other ∈ applied) := by
    intro tx member
    obtain ⟨other, contains, sameSlot⟩ :=
      consistent.exists_sameSlots same holds isReverted recovers room tx member
    refine ⟨other, contains, sameSlot, ?_⟩
    by_cases listed : other.hash ∈ applied.map SignedTransaction.hash
    · obtain ⟨included, isIncluded, sameHash⟩ := List.mem_map.mp listed
      obtain rfl := same included other (isApplied included isIncluded)
        (contents.hashed other.hash other contains).2.1 sameHash
      exact Or.inr isIncluded
    · exact Or.inl (TransactionPool.contains_removeIncluded.mpr ⟨listed, contains⟩)
  constructor
  · intro tx member
    obtain ⟨other, _, sameSlot, kept⟩ := slots tx member
    exact ⟨other, kept, sameSlot⟩
  · intro tx member alone
    obtain ⟨other, contains, sameSlot, kept⟩ := slots tx member
    have origin := (contents.hashed other.hash other contains).2.2
    obtain rfl := alone other (origin.imp id Or.inl) sameSlot
    exact kept
  · intro tx member
    have absent
        : ¬ (returned.removeIncluded crypto (applied.map SignedTransaction.hash)).Contains tx :=
      fun contains =>
        (TransactionPool.contains_removeIncluded.mp contains).1 (List.mem_map_of_mem member)
    refine ⟨absent, fun sender nonce waits => absent ?_⟩
    exact (((consistent.addTransactions reverted).removeIncluded _).same.queued sender nonce tx
      waits).2.2

/-- On every chain that genesis, imports, reorganizations and restarts lead to, with any pool
that has room for the reverted transactions, a reorganization to a block of the chain loses none
of them.
-/
theorem reorgTransactions_run (host : Host F) {genesis : BlockHeader}
    (number : genesis.number = 0) {ops : List (HeadOp F)}
    (collisionFree : Set.InjOn (BlockHeader.hash host.crypto) (runHeaders genesis ops))
    (readBack : ReadBack host.blocks (runBlocks genesis ops)) {chain reached : Chain F}
    (fresh : ∀ hash, chain.db.getBody host.blocks hash = .ok none)
    (ran : reached = ops.foldl (HeadOp.run host) (chain.initGenesis host genesis))
    {maxSize : Nat} {poolOps : List PoolOp} {pool : TransactionPool}
    (isPool : pool = poolOps.foldl (PoolOp.run host.crypto) (.withMaxSize maxSize))
    {forkPoint : UInt64} (onChain : forkPoint ≤ reached.blockNumber)
    {newBlocks : List (Block × BlockOrder F)} {known : Set SignedTransaction}
    (apart : TellsApart host.crypto known)
    (pooled
      : ∀ key tx, pool.byHash.lookup key = some tx → tx.Genuine host.crypto known)
    (reverted : ∀ tx ∈ reached.revertedTxs host forkPoint, tx.Genuine host.crypto known)
    (brought : ∀ tx ∈ branchTxs newBlocks, tx.Genuine host.crypto known)
    (room
      : pool.byHash.keys.card + (reached.revertedTxs host forkPoint).length ≤ maxSize)
    : ∃ outcome final,
        { reached with txpool := pool }.executeReorg host forkPoint newBlocks
          = (.ok outcome, final)
        ∧ KeepsTransactions host.crypto pool (reached.revertedTxs host forkPoint)
            (branchTxs (newBlocks.take outcome.blocksApplied)) final.txpool := by
  obtain ⟨head, indexed⟩ := exists_indexed_of_run number collisionFree
    (fun block listed => ⟨block, listed, rfl⟩) readBack ran
  have senders : StoredSenders host reached.db := by
    rw [ran]
    exact (storedSenders_initGenesis fresh (readBack _ List.mem_cons_self).2).foldl_run
      (fun block listed => readBack block (List.mem_cons_of_mem _ listed))
  rw [indexed.blockNumber] at onChain
  have indexed' : Indexed host (runHeaders genesis ops) { reached with txpool := pool } head :=
    ⟨indexed.isHead, indexed.latest, indexed.canonical⟩
  obtain ⟨outcome, final, result, txpool⟩ := indexed'.txpool_executeReorg onChain newBlocks
  have consistent : pool.Consistent host.crypto maxSize :=
    isPool ▸ (TransactionPool.consistent_withMaxSize host.crypto maxSize).foldl_run poolOps
  refine ⟨outcome, final, result, ?_⟩
  rw [txpool]
  refine keepsTransactions_of_consistent consistent apart ⟨?_, ?_⟩ reverted ?_ ?_ room
  · intro key tx found
    exact ⟨(consistent.same.hashed key tx found).1, pooled key tx found⟩
  · intro sender nonce tx found
    exact pooled tx.hash tx (consistent.same.queued sender nonce tx found).2.2
  · intro tx included
    obtain ⟨entry, isEntry, inBlock⟩ := List.mem_flatMap.mp included
    exact brought tx (List.mem_flatMap.mpr ⟨entry, List.mem_of_mem_take isEntry, inBlock⟩)
  · intro tx isReverted
    obtain ⟨number, _, atNumber⟩ := List.mem_flatMap.mp isReverted
    exact senders.txsAt atNumber

/-- A move by the account of a key. -/
def moveOf (secret : B256) : SignedTransaction := .action secret 1 0 (.move 1000 0 0)

/-- A block with a move of account 9. -/
def moveOnGenesis : Block := Block.new firstBlock.header [moveOf 9]

/-- A branch of one block, with a move of account 6. -/
def rivalBranch : List (Block × BlockOrder Milli) :=
  [(Block.new { firstBlock.header with nonce := 2 } [moveOf 6], .ascending Milli)]

/-- A host that can store the blocks. -/
def moveHost : Host Milli :=
  .reference (Block.new (.genesis 0) [] :: moveOnGenesis :: rivalBranch.map Prod.fst)

/-- Genesis and the block with the move. -/
def moveOps : List (HeadOp Milli) := [.applyBlock moveOnGenesis (.ascending Milli)]

def movedChain : Chain Milli :=
  moveOps.foldl (HeadOp.run moveHost) (genesisChain.initGenesis moveHost (.genesis 0))

/-- A pool with room for one more transaction, in which moves of accounts 6 and 8 wait. -/
def waitingPool : TransactionPool :=
  (TransactionPool.withMaxSize 3).addTransactions .disclosing [moveOf 6, moveOf 8]

/-- The moves of the chain, the pool and the branch. -/
def movesOfAccounts : List SignedTransaction := [moveOf 9, moveOf 8, moveOf 6]

theorem genuine_moveOf {tx : SignedTransaction} (listed : tx ∈ movesOfAccounts)
    : tx.Genuine .disclosing { tx | tx ∈ movesOfAccounts } := by
  have own : ∀ tx ∈ movesOfAccounts, tx.CarriesOwnHash .disclosing := by
    unfold SignedTransaction.CarriesOwnHash
    decide +kernel
  exact ⟨listed, own tx listed⟩

theorem tellsApart_movesOfAccounts
    : TellsApart .disclosing { tx | tx ∈ movesOfAccounts } := by
  have messages
      : ∀ tx ∈ movesOfAccounts, ∀ tx' ∈ movesOfAccounts,
          Crypto.disclosing.keccak256 (tx.hashMessage .disclosing)
            = Crypto.disclosing.keccak256 (tx'.hashMessage .disclosing)
          → tx.hashMessage .disclosing = tx'.hashMessage .disclosing := by
    decide +kernel
  have encodings
      : ∀ tx ∈ movesOfAccounts, ∀ tx' ∈ movesOfAccounts,
          tx.hashMessage .disclosing = tx'.hashMessage .disclosing
          → tx.transaction = tx'.transaction ∧ tx.signature = tx'.signature := by
    decide +kernel
  exact ⟨messages, encodings⟩

/-- The move of account 9 goes back into the pool when its block is reverted, and the move of
account 6 leaves it when the branch includes it.
-/
theorem reorgTransactions_run_rivalBranch
    : ∃ outcome final,
        { movedChain with txpool := waitingPool }.executeReorg moveHost 0 rivalBranch
          = (.ok outcome, final)
        ∧ KeepsTransactions moveHost.crypto waitingPool (movedChain.revertedTxs moveHost 0)
            (branchTxs (rivalBranch.take outcome.blocksApplied)) final.txpool := by
  have reverted : movedChain.revertedTxs moveHost 0 = [moveOf 9] := by decide +kernel
  have collisionFree
      : Set.InjOn (BlockHeader.hash .disclosing) (runHeaders (.genesis 0) moveOps) :=
    injOn_runHeaders (by decide +kernel)
  have readBack : ReadBack moveHost.blocks (runBlocks (.genesis 0) moveOps) := by
    unfold ReadBack
    decide +kernel
  have fresh (hash : B256) : genesisChain.db.getBody moveHost.blocks hash = .ok none := rfl
  have ran
      : movedChain
        = moveOps.foldl (HeadOp.run moveHost) (genesisChain.initGenesis moveHost (.genesis 0)) :=
    rfl
  have isPool
      : waitingPool
        = [PoolOp.addTransaction (moveOf 6), .addTransaction (moveOf 8)].foldl
            (PoolOp.run moveHost.crypto) (.withMaxSize 3) :=
    rfl
  have pooled
      : waitingPool.Holds
          (SignedTransaction.Genuine .disclosing { tx | tx ∈ movesOfAccounts }) := by
    refine (TransactionPool.holds_withMaxSize _ _).addTransactions fun tx added => ?_
    exact genuine_moveOf (List.mem_cons_of_mem _ (List.mem_reverse.mp added))
  refine reorgTransactions_run moveHost rfl collisionFree readBack fresh ran isPool
    (by decide +kernel) tellsApart_movesOfAccounts
    (fun key tx found => (pooled.hashed key tx found).2) ?_ ?_
    (by rw [reverted]; decide +kernel)
  · intro tx member
    rw [reverted] at member
    exact genuine_moveOf (List.mem_cons.mpr (Or.inl (List.mem_singleton.mp member)))
  · intro tx member
    obtain rfl := List.mem_singleton.mp member
    exact genuine_moveOf (List.mem_of_getLast? rfl)

-- The move of account 9 takes the place of that of account 6.
example
    : let after :=
        ({ movedChain with txpool := waitingPool }.executeReorg moveHost 0 rivalBranch).2.txpool
      movesOfAccounts.filter (fun tx => tx.hash ∈ waitingPool.byHash) = [moveOf 8, moveOf 6]
      ∧ movesOfAccounts.filter (fun tx => tx.hash ∈ after.byHash) = [moveOf 9, moveOf 8] := by
  decide +kernel

end Chain

end VeloChain
