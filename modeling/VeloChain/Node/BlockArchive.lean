import VeloChain.Node.CanonicalIndex
import VeloChain.Node.ReceiptOrder

/-! The blocks and receipts that a node has stored, and what the database says of them.
The number index leads to the block that was applied last at a height, and a receipt is the one
that was stored last under the hash of its transaction.
-/

namespace VeloChain

/-- A block with the receipts that its passes left, in their order. -/
structure AppliedBlock where
  block : Block
  receipts : List TransactionReceipt
  hashes
    : receipts.map TransactionReceipt.txHash
      = (block.evmTxs ++ block.gameTxs).map SignedTransaction.hash

/-- The receipts of the transactions of a body, from those of its two kinds. -/
def inBodyOrder : List SignedTransaction → List TransactionReceipt → List TransactionReceipt
    → List TransactionReceipt
  | [], _, _ => []
  | tx :: rest, evm, game =>
      if tx.isGameAction then game.head?.toList ++ inBodyOrder rest evm game.tail
      else evm.head?.toList ++ inBodyOrder rest evm.tail game

/-- There is one receipt for each transaction of the body, by induction on the body. -/
theorem inBodyOrder_hashes {txs : List SignedTransaction} {evm game : List TransactionReceipt}
    (evmHashes
      : evm.map TransactionReceipt.txHash
        = (txs.filter (fun tx => !tx.isGameAction)).map SignedTransaction.hash)
    (gameHashes
      : game.map TransactionReceipt.txHash
        = (txs.filter SignedTransaction.isGameAction).map SignedTransaction.hash)
    : (inBodyOrder txs evm game).map TransactionReceipt.txHash
      = txs.map SignedTransaction.hash := by
  induction txs generalizing evm game with
  | nil => rfl
  | cons tx rest ih =>
      cases kind : tx.isGameAction with
      | true =>
          rw [List.filter_cons_of_neg (by simp [kind])] at evmHashes
          rw [List.filter_cons_of_pos kind, List.map_cons] at gameHashes
          cases game with
          | nil => simp at gameHashes
          | cons receipt game =>
              obtain ⟨here, later⟩ := List.cons.inj gameHashes
              simp [inBodyOrder, kind, here, ih evmHashes later]
      | false =>
          rw [List.filter_cons_of_neg (by simp [kind])] at gameHashes
          rw [List.filter_cons_of_pos (by simp [kind]), List.map_cons] at evmHashes
          cases evm with
          | nil => simp at evmHashes
          | cons receipt evm =>
              obtain ⟨here, later⟩ := List.cons.inj evmHashes
              simp [inBodyOrder, kind, here, ih later gameHashes]

namespace AppliedBlock

/-- The receipts of the transactions of the body, in the order of the body. -/
def bodyReceipts (applied : AppliedBlock) : List TransactionReceipt :=
  inBodyOrder applied.block.body.transactions
    (applied.receipts.take applied.block.evmTxs.length)
    (applied.receipts.drop applied.block.evmTxs.length)

theorem bodyReceipts_hashes (applied : AppliedBlock)
    : applied.bodyReceipts.map TransactionReceipt.txHash
      = applied.block.body.transactions.map SignedTransaction.hash := by
  have hashes := applied.hashes
  rw [List.map_append] at hashes
  apply inBodyOrder_hashes
  · rw [List.map_take, hashes, List.take_left' (List.length_map _)]
    rfl
  · rw [List.map_drop, hashes, List.drop_left' (List.length_map _)]
    rfl

end AppliedBlock

section Archive

variable {F : Type} (host : Host F)

/-- Store a block and its receipts. -/
def AppliedBlock.store (applied : AppliedBlock) (db : Database) : Database :=
  Chain.storeReceipts host (applied.block.hash host.crypto) applied.receipts
    (db.putBlock host.crypto host.blocks applied.block)

/-- What the blocks of a log have written, from the last one down to the first. -/
def written : List AppliedBlock → Database
  | [] => .empty
  | applied :: earlier => applied.store host (written earlier)

/-- The blocks of the log are what a database has of blocks and receipts. -/
structure Archived (log : List AppliedBlock) (db : Database) : Prop where
  numbers : db.contents .blockNumberToHash = (written host log).contents .blockNumberToHash
  bodies : db.contents .bodies = (written host log).contents .bodies
  receipts : db.contents .receipts = (written host log).contents .receipts

variable {host}

/-- The block that was applied last at a height. -/
def canonicalAt (log : List AppliedBlock) (number : UInt64) : Option AppliedBlock :=
  log.find? (fun applied => applied.block.number == number)

/-- The receipts of a block as they are stored, the last one first. -/
def AppliedBlock.stored (crypto : Crypto) (applied : AppliedBlock) : List TransactionReceipt :=
  (applied.receipts.map (fun receipt =>
    { receipt with blockHash := applied.block.hash crypto })).reverse

/-- The receipt that was stored last for a transaction. -/
def latestReceipt (crypto : Crypto) (log : List AppliedBlock) (txHash : B256)
    : Option TransactionReceipt :=
  (log.flatMap (AppliedBlock.stored crypto)).find? (fun receipt => receipt.txHash == txHash)

variable {log : List AppliedBlock} {db : Database}

theorem Archived.getBlockHashByNumber (archived : Archived host log db) (number : UInt64)
    : db.getBlockHashByNumber number
      = .ok ((canonicalAt log number).map (fun applied => applied.block.hash host.crypto)) := by
  rw [Database.getBlockHashByNumber_congr archived.numbers]
  clear archived
  induction log with
  | nil => rfl
  | cons applied earlier ih =>
      rw [written, AppliedBlock.store,
        Database.getBlockHashByNumber_congr
          (Database.contents_storeReceipts host _ _ _ (by decide)),
        Database.getBlockHashByNumber_putBlock, ih, canonicalAt, canonicalAt, List.find?_cons]
      by_cases here : applied.block.number = number
      · simp [here]
      · rw [if_neg (fun same => here same.symm), beq_false_of_ne here]

/-- The last one of the receipts stored under a hash is the one that is found. -/
theorem getReceipt_storeReceipts_eq (blockHash : B256) (receipts : List TransactionReceipt)
    (db : Database) (txHash : B256)
    : (Chain.storeReceipts host blockHash receipts db).getReceipt txHash
      = (((receipts.map (fun receipt => { receipt with blockHash })).reverse.find?
          (fun receipt => receipt.txHash == txHash)).map host.receiptJson).or
          (db.getReceipt txHash) := by
  unfold Chain.storeReceipts
  induction receipts generalizing db with
  | nil => rfl
  | cons receipt rest ih =>
      have first
          : (db.putReceipt receipt.txHash
                (host.receiptJson { receipt with blockHash })).getReceipt txHash
            = if receipt.txHash = txHash then some (host.receiptJson { receipt with blockHash })
              else db.getReceipt txHash := by
        simp [Database.getReceipt, Database.getCf, Database.putReceipt, Database.contents_putCf,
          hashSlice_inj, eq_comm]
      rw [List.foldl_cons, ih, first, List.map_cons, List.reverse_cons, List.find?_append,
        List.find?_singleton]
      generalize (rest.map (fun receipt => { receipt with blockHash })).reverse.find?
        (fun receipt => receipt.txHash == txHash) = later
      by_cases here : receipt.txHash = txHash <;> cases later <;> simp [here]

theorem Archived.getReceipt (archived : Archived host log db) (txHash : B256)
    : db.getReceipt txHash = (latestReceipt host.crypto log txHash).map host.receiptJson := by
  have same : db.getReceipt txHash = (written host log).getReceipt txHash := by
    rw [Database.getReceipt, Database.getCf, archived.receipts]
    rfl
  rw [same]
  clear same archived
  induction log with
  | nil => rfl
  | cons applied earlier ih =>
      have before
          : ((written host earlier).putBlock host.crypto host.blocks applied.block).getReceipt
              txHash
            = (written host earlier).getReceipt txHash :=
        congrFun
          (Database.contents_putBlock_of_ne (by decide) (by decide) (by decide) (by decide)) _
      rw [written, AppliedBlock.store, getReceipt_storeReceipts_eq, before, ih, latestReceipt,
        latestReceipt, List.flatMap_cons, List.find?_append, Option.map_or]
      rfl

/-- The body of a canonical block is found, since no later block has its hash. -/
theorem Archived.getBody (archived : Archived host log db)
    (collisionFree
      : Set.InjOn (BlockHeader.hash host.crypto)
          { header | ∃ applied ∈ log, applied.block.header = header })
    (readBack : ∀ applied ∈ log, host.blocks.body.RoundTripsAt applied.block.body)
    {number : UInt64} {applied : AppliedBlock} (canonical : canonicalAt log number = some applied)
    : db.getBody host.blocks (applied.block.hash host.crypto)
      = .ok (some applied.block.body) := by
  rw [Database.getBody_congr archived.bodies]
  clear archived
  induction log with
  | nil => simp [canonicalAt] at canonical
  | cons first earlier ih =>
      obtain ⟨readFirst, readEarlier⟩ := List.forall_mem_cons.mp readBack
      rw [written, AppliedBlock.store,
        Database.getBody_congr (Database.contents_storeReceipts host _ _ _ (by decide)),
        Database.getBody_putBlock host.crypto readFirst]
      have among := List.mem_of_find?_eq_some canonical
      have height : applied.block.number = number := by
        simpa using List.find?_some canonical
      by_cases same : applied.block.hash host.crypto = first.block.hash host.crypto
      · rw [if_pos same]
        have header := collisionFree ⟨applied, among, rfl⟩ ⟨first, List.mem_cons_self, rfl⟩ same
        have firstHeight : first.block.number = number := by
          rw [← height, Block.number, Block.number, header]
        rw [canonicalAt, List.find?_cons, firstHeight, beq_self_eq_true] at canonical
        rw [Option.some.inj canonical]
      · rw [if_neg same]
        have older : canonicalAt earlier number = some applied := by
          rw [canonicalAt, List.find?_cons] at canonical
          split at canonical
          next =>
            obtain rfl := Option.some.inj canonical
            exact absurd rfl same
          next => exact canonical
        refine ih (collisionFree.mono ?_) readEarlier older
        rintro header ⟨other, member, rfl⟩
        exact ⟨other, List.mem_cons_of_mem first member, rfl⟩

-----------------------------------------------------------------------------------------
-- Runs
-----------------------------------------------------------------------------------------

/-- Writes to other families leave the archive as it is. -/
theorem Archived.congr (archived : Archived host log db) {after : Database}
    (numbers : after.contents .blockNumberToHash = db.contents .blockNumberToHash)
    (bodies : after.contents .bodies = db.contents .bodies)
    (receipts : after.contents .receipts = db.contents .receipts)
    : Archived host log after :=
  ⟨numbers.trans archived.numbers, bodies.trans archived.bodies,
    receipts.trans archived.receipts⟩

theorem contents_storeReceipts_congr {left right : Database} {cf : ColumnFamily}
    (same : left.contents cf = right.contents cf) (blockHash : B256)
    (receipts : List TransactionReceipt)
    : (Chain.storeReceipts host blockHash receipts left).contents cf
      = (Chain.storeReceipts host blockHash receipts right).contents cf := by
  unfold Chain.storeReceipts
  induction receipts generalizing left right with
  | nil => exact same
  | cons receipt rest ih => exact ih (Database.contents_putCf_congr same _ _ _)

/-- A block that is stored enters the log. -/
theorem Archived.store (archived : Archived host log db) (applied : AppliedBlock)
    : Archived host (applied :: log) (applied.store host db) := by
  have stored {cf : ColumnFamily} (same : db.contents cf = (written host log).contents cf)
      : (applied.store host db).contents cf = (written host (applied :: log)).contents cf :=
    contents_storeReceipts_congr (Database.contents_putBlock_congr same _ _ _) _ _
  exact ⟨stored archived.numbers, stored archived.bodies, stored archived.receipts⟩

/-- Genesis enters the log as a block without receipts. -/
def AppliedBlock.genesis (header : BlockHeader) : AppliedBlock :=
  { block := Block.new header [], receipts := [], hashes := rfl }

/-- What an accepted block leaves in the log. -/
def AppliedBlock.ofAccepted [F32 F] {order : BlockOrder F} {block : Block} {chain : Chain F}
    (accepted : Chain.Accepted host order block chain) : AppliedBlock :=
  { block, receipts := accepted.processed.receipts, hashes := accepted.receipts_txHash }

theorem Archived.initGenesis {chain : Chain F} (archived : Archived host log chain.db)
    (header : BlockHeader)
    : Archived host (.genesis header :: log) (chain.initGenesis host header).db :=
  (archived.store (.genesis header)).congr
    (Database.contents_putLatestBlockNumber (by decide) _ _)
    (Database.contents_putLatestBlockNumber (by decide) _ _)
    (Database.contents_putLatestBlockNumber (by decide) _ _)

/-- An accepted block enters the log with its receipts. -/
theorem Archived.result [F32 F] {order : BlockOrder F} {block : Block} {chain : Chain F}
    (archived : Archived host log chain.db)
    (accepted : Chain.Accepted host order block chain)
    : Archived host (.ofAccepted accepted :: log) accepted.result.db := by
  have stored := archived.store (.ofAccepted accepted)
  have block {cf : ColumnFamily} (state : cf ≠ .gameState) (receipts : cf ≠ .receipts)
      (metadata : cf ≠ .metadata)
      : accepted.result.db.contents cf
        = ((AppliedBlock.ofAccepted accepted).store host chain.db).contents cf := by
    rw [Chain.Accepted.result, Chain.contents_finalize _ _ _ _ _ state receipts,
      Database.contents_putLatestBlockNumber metadata, AppliedBlock.store,
      Database.contents_storeReceipts host _ _ _ receipts]
    rfl
  refine stored.congr (block (by decide) (by decide) (by decide))
    (block (by decide) (by decide) (by decide)) ?_
  refine contents_storeReceipts_congr ?_ _ _
  rw [Database.contents_putLatestBlockNumber (by decide)]
  refine Database.contents_putBlock_congr ?_ _ _ _
  have committed
      := funext (fun key =>
          @WorldState.contents_writeAccounts host.account
            (chain.worldStored host order accepted.world)
            accepted.processed.state.dirtyAccounts
            (order.dirtyAccounts.keys accepted.processed.state.dirtyAccounts) .receipts key
            (Or.inl (by decide)))
  exact committed.trans (Database.contents_putCf_of_ne (by decide) _ _)

end Archive

namespace Chain

variable {F : Type} [F32 F] {host : Host F}

/-- The database of a chain is an archive of some of the given blocks. -/
def ArchiveOf (host : Host F) (blocks : List Block) (chain : Chain F) : Prop :=
  ∃ log, Archived host log chain.db ∧ ∀ applied ∈ log, applied.block ∈ blocks

theorem ArchiveOf.applyBlock {blocks : List Block} {chain : Chain F}
    (archive : ArchiveOf host blocks chain) {block : Block} (member : block ∈ blocks)
    (order : BlockOrder F)
    : ArchiveOf host blocks (chain.applyBlock host order block).2 := by
  obtain ⟨log, archived, among⟩ := archive
  rcases call : chain.applyBlock host order block with ⟨_ | _, after⟩
  · obtain ⟨_, _, _, rfl⟩ := applyBlock_error call
    exact ⟨log, archived, among⟩
  · obtain ⟨accepted, rfl⟩ := applyBlock_ok_iff.mp call
    exact ⟨_, archived.result accepted, List.forall_mem_cons.mpr ⟨member, among⟩⟩

/-- Each operation keeps an archive: a reorganization applies its blocks and moves the head. -/
theorem ArchiveOf.run {blocks : List Block} {chain : Chain F}
    (archive : ArchiveOf host blocks chain) {op : HeadOp F} (among : op.blocks ⊆ blocks)
    : ArchiveOf host blocks (op.run host chain) := by
  cases op with
  | applyBlock block order => exact archive.applyBlock (among (List.mem_singleton_self _)) order
  | executeReorg forkPoint newBlocks =>
      refine executeReorg_invariant (ArchiveOf host blocks) archive ?_ ?_ ?_
      · intro state number _ held
        obtain ⟨txpool, frame⟩ := @revertBlock_frame F host number state
        rw [frame]
        exact held
      · intro state block held _ _
        obtain ⟨log, archived, member⟩ := held
        exact ⟨log,
          archived.congr (Database.contents_putLatestBlockNumber (by decide) _ _)
            (Database.contents_putLatestBlockNumber (by decide) _ _)
            (Database.contents_putLatestBlockNumber (by decide) _ _),
          member⟩
      · intro state entry listed held
        exact held.applyBlock (among (List.mem_map_of_mem listed)) entry.2
  | restoreHead =>
      obtain ⟨head, frame⟩ := @restoreHead_frame F host chain
      rw [HeadOp.run, frame]
      exact archive

/-- After genesis in a new database, whatever blocks are applied and reorganizations carried out,
the database is an archive of blocks of the run, by induction on the operations.
-/
theorem archiveOf_run {genesis : BlockHeader} {ops : List (HeadOp F)} {chain : Chain F}
    (fresh : Archived host [] chain.db)
    : ArchiveOf host (runBlocks genesis ops)
        (ops.foldl (HeadOp.run host) (chain.initGenesis host genesis)) := by
  have started : ArchiveOf host (runBlocks genesis ops) (chain.initGenesis host genesis) :=
    ⟨_, fresh.initGenesis genesis,
      fun applied member => List.mem_singleton.mp member ▸ List.mem_cons_self⟩
  have among : ∀ op ∈ ops, op.blocks ⊆ runBlocks genesis ops := by
    intro op member block listed
    exact List.mem_cons_of_mem _ (List.mem_flatMap.mpr ⟨op, member, listed⟩)
  generalize runBlocks genesis ops = blocks at started among ⊢
  generalize chain.initGenesis host genesis = reached at started
  induction ops generalizing reached with
  | nil => exact started
  | cons op rest ih =>
      obtain ⟨first, later⟩ := List.forall_mem_cons.mp among
      exact ih later _ (started.run first)

end Chain

end VeloChain
