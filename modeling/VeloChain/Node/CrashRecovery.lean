import VeloChain.Node.Receipts
import VeloChain.Node.WriteOrder

/-! Databases that lead a restarted node to a head.
After every prefix of the writes of a block there is a header to restart from: the old head
until the latest block number is written, and the block from then on. So a running node keeps
such a database, wherever it was stopped before.
-/

namespace VeloChain.Chain

open CommitPoint

variable {F : Type}

-----------------------------------------------------------------------------------------
-- Databases that lead to a head
-----------------------------------------------------------------------------------------

/-- The database leads to its head, which is not older than its latest block number nor than
any stored receipt.
-/
structure Anchored (host : Host F) (db : Database) (head : BlockHeader) (latest : UInt64)
    : Prop where
  stored : HeadStored host db head latest
  below : latest ≤ head.number
  aged : head.number ≤ head.timestamp
  receipts
    : ∀ txHash data, db.getReceipt txHash = some data →
        ∃ receipt, data = host.receiptJson receipt ∧ receipt.blockNumber ≤ head.number

section Anchored

variable {host : Host F} {db db' : Database} {head : BlockHeader} {latest : UInt64}

/-- A database with the same numbers and receipts leads to the header it holds under the hash
of the head.
-/
theorem Anchored.rehead (anchored : Anchored host db head latest)
    (metadata : db'.contents .metadata = db.contents .metadata)
    (numbers : db'.contents .blockNumberToHash = db.contents .blockNumberToHash)
    (receipts : db'.contents .receipts = db.contents .receipts) {head' : BlockHeader}
    (sameHash : head'.hash host.crypto = head.hash host.crypto)
    (found : db'.getHeader host.blocks (head.hash host.crypto) = .ok (some head'))
    (above : head.number ≤ head'.number) (aged : head'.number ≤ head'.timestamp)
    : Anchored host db' head' latest := by
  refine ⟨⟨?_, ?_, ?_⟩, UInt64.le_trans anchored.below above, aged, ?_⟩
  · exact (Database.getLatestBlockNumber_congr metadata).trans anchored.stored.number
  · rw [sameHash]
    exact (Database.getBlockHashByNumber_congr numbers _).trans anchored.stored.indexed
  · rw [sameHash, found]
  · intro txHash data stored
    rw [Database.getReceipt, Database.getCf, receipts] at stored
    obtain ⟨receipt, encoded, old⟩ := anchored.receipts txHash data stored
    exact ⟨receipt, encoded, UInt64.le_trans old above⟩

/-- Game state, accounts, bodies and the transaction index do not matter. -/
theorem Anchored.put_other (anchored : Anchored host db head latest) {cf : ColumnFamily}
    (other : cf = .gameState ∨ cf = .bodies ∨ cf = .transactions) (key value : Bytes)
    : Anchored host (db.putCf cf key value) head latest := by
  have kept (cf' : ColumnFamily) (ne : cf' ≠ cf)
      : (db.putCf cf key value).contents cf' = db.contents cf' :=
    Database.contents_putCf_of_ne ne key value
  have header := Database.getHeader_congr
    (kept .headers (by rcases other with rfl | rfl | rfl <;> decide)) host.blocks
    (head.hash host.crypto)
  refine anchored.rehead (kept _ ?_) (kept _ ?_) (kept _ ?_) rfl
    (header.trans anchored.stored.stored) (UInt64.le_refl _) anchored.aged
  all_goals
    rcases other with rfl | rfl | rfl <;> decide

theorem getHeader_put (sound : host.blocks.header.RoundTrips) (header : BlockHeader)
    (hash hash' : B256) (db : Database)
    : (db.putCf .headers (hashSlice hash) (host.blocks.header.encode header)).getHeader
          host.blocks hash'
      = if hash' = hash then .ok (some header) else db.getHeader host.blocks hash' := by
  by_cases same : hash' = hash <;>
    simp [Database.getHeader, Database.getCf, Database.contents_putCf, hashSlice_inj, same,
      show host.blocks.header.decode _ = _ from sound header]

/-- A header that is stored replaces the head exactly when it has the same hash. -/
theorem Anchored.put_header (sound : host.blocks.header.RoundTrips)
    (anchored : Anchored host db head latest) {header : BlockHeader}
    (above : head.number ≤ header.number) (aged : header.number ≤ header.timestamp)
    : Anchored host
        (db.putCf .headers (hashSlice (header.hash host.crypto))
          (host.blocks.header.encode header))
        (if header.hash host.crypto = head.hash host.crypto then header else head) latest := by
  have kept (cf : ColumnFamily) (ne : cf ≠ .headers)
      : (db.putCf .headers (hashSlice (header.hash host.crypto))
          (host.blocks.header.encode header)).contents cf = db.contents cf :=
    Database.contents_putCf_of_ne ne _ _
  have found := getHeader_put sound header (header.hash host.crypto) (head.hash host.crypto) db
  split
  next same =>
    exact anchored.rehead (kept _ (by decide)) (kept _ (by decide)) (kept _ (by decide)) same
      (found.trans (if_pos same.symm)) above aged
  next other =>
    have unchanged := found.trans (if_neg (Ne.symm other))
    exact anchored.rehead (kept _ (by decide)) (kept _ (by decide)) (kept _ (by decide)) rfl
      (unchanged.trans anchored.stored.stored) (UInt64.le_refl _) anchored.aged

/-- The hash of another number does not matter. -/
theorem Anchored.put_number (anchored : Anchored host db head latest) {number : UInt64}
    (other : latest ≠ number) (value : Bytes)
    : Anchored host (db.putCf .blockNumberToHash (Database.numberKey number) value) head
        latest := by
  have kept (cf : ColumnFamily) (ne : cf ≠ .blockNumberToHash)
      : (db.putCf .blockNumberToHash (Database.numberKey number) value).contents cf
        = db.contents cf :=
    Database.contents_putCf_of_ne ne _ _
  refine ⟨⟨?_, ?_, ?_⟩, anchored.below, anchored.aged, ?_⟩
  · exact (Database.getLatestBlockNumber_congr (kept _ (by decide))).trans
      anchored.stored.number
  · have indexed := anchored.stored.indexed
    simpa only [Database.getBlockHashByNumber, Database.getCf, Database.contents_putCf,
      Database.numberKey_inj, other, and_false, if_false] using indexed
  · exact (Database.getHeader_congr (kept _ (by decide)) _ _).trans anchored.stored.stored
  · intro txHash data stored
    rw [Database.getReceipt, Database.getCf, kept _ (by decide)] at stored
    exact anchored.receipts txHash data stored

/-- Receipts up to the head may be stored. -/
theorem Anchored.put_receipt (anchored : Anchored host db head latest)
    {receipt : TransactionReceipt} (old : receipt.blockNumber ≤ head.number) (key : Bytes)
    : Anchored host (db.putCf .receipts key (host.receiptJson receipt)) head latest := by
  have kept (cf : ColumnFamily) (ne : cf ≠ .receipts)
      : (db.putCf .receipts key (host.receiptJson receipt)).contents cf = db.contents cf :=
    Database.contents_putCf_of_ne ne _ _
  refine ⟨⟨?_, ?_, ?_⟩, anchored.below, anchored.aged, ?_⟩
  · exact (Database.getLatestBlockNumber_congr (kept _ (by decide))).trans
      anchored.stored.number
  · exact (Database.getBlockHashByNumber_congr (kept _ (by decide)) _).trans
      anchored.stored.indexed
  · exact (Database.getHeader_congr (kept _ (by decide)) _ _).trans anchored.stored.stored
  · intro txHash data stored
    simp only [Database.getReceipt, Database.getCf, Database.contents_putCf, true_and]
      at stored
    split at stored
    next => exact ⟨receipt, (Option.some.inj stored).symm, old⟩
    next => exact anchored.receipts txHash data stored

end Anchored

-----------------------------------------------------------------------------------------
-- The prefixes of the log of a block
-----------------------------------------------------------------------------------------

section Prefixes

variable [F32 F] {host : Host F} {order : BlockOrder F} {block : Block} {chain : Chain F}
  {head : BlockHeader} {latest : UInt64}

/-- The writes of an applied block. -/
def Accepted.puts (accepted : Accepted host order block chain) : List Put :=
  finalizePuts host order block accepted.processed accepted.world

/-- The writes of an applied block before its number is the latest one. -/
def Accepted.pendingPuts (accepted : Accepted host order block chain) : List Put :=
  Chain.pendingPuts host order block accepted.processed accepted.world

theorem Accepted.puts_eq (accepted : Accepted host order block chain)
    : accepted.puts
      = accepted.pendingPuts
        ++ Database.latestPut block.number
          :: receiptPuts host (block.hash host.crypto) accepted.processed.receipts := rfl

/-- The database once the number of an applied block is the latest one. -/
def Accepted.announced (accepted : Accepted host order block chain) : Database :=
  (Database.latestPut block.number).run (chain.db.replay accepted.pendingPuts)

theorem Accepted.db_result (accepted : Accepted host order block chain)
    : accepted.result.db = chain.db.replay accepted.puts :=
  db_finalize host order block accepted.processed accepted.world chain

theorem Accepted.db_announced (accepted : Accepted host order block chain)
    : accepted.result.db
      = accepted.announced.replay
          (receiptPuts host (block.hash host.crypto) accepted.processed.receipts) := by
  rw [accepted.db_result, accepted.puts_eq, Database.replay, replay_append, replay_cons]
  rfl

/-- The world stored by an applied block is the one after its tick. -/
theorem Accepted.ecs_restoredWorld (reads : host.ecs.RoundTrips)
    (accepted : Accepted host order block chain) (seed : UInt64)
    : (restoredWorld host accepted.result.db seed).ecs = accepted.world.ecs := by
  have stored
      : accepted.result.db.getGameState "world".toUTF8.toList
        = some (accepted.world.serializeState host.ecs order.persist) :=
    (Database.getGameState_congr (contents_finalize_gameState host order block
      accepted.processed accepted.world chain) _).trans (getGameState_commit host order
        accepted.processed accepted.world chain)
  have read
      : host.ecs.decode (accepted.world.serializeState host.ecs order.persist)
        = .ok accepted.world.ecs :=
    reads accepted.world.ecs order.persist
  rw [restoredWorld_of_decode stored read]

variable (sound : host.blocks.header.RoundTrips)
  (anchored : Anchored host chain.db head latest)
  (accepted : Accepted host order block chain) (isHead : chain.head = some head)

include accepted isHead

theorem Accepted.follows_head : PoaConsensus.FollowsParent host.crypto block.header head := by
  obtain rfl := Option.some.inj (accepted.head.symm.trans isHead)
  exact PoaConsensus.verifyBlock_header accepted.verified

include sound anchored

/-- Before the number of the block is the latest one, the database leads to the old head, or
to a header under the same hash.
-/
theorem Accepted.anchored_pending (n : Nat)
    : ∃ head',
        Anchored host (chain.db.replay (accepted.pendingPuts.take n)) head' latest
        ∧ head'.number ≤ block.number := by
  obtain ⟨grows, aged⟩ := (accepted.follows_head isHead).aged anchored.aged
  have other : latest ≠ block.number :=
    UInt64.ne_of_lt (UInt64.lt_of_le_of_lt anchored.below grows)
  refine @replay_invariant Put Database Put.run
    (fun db => ∃ head', Anchored host db head' latest ∧ head'.number ≤ block.number) _ _ ?_
    ⟨head, anchored, UInt64.le_of_lt grows⟩
  rintro put member db ⟨head', anchored', below⟩
  cases pendingPut_of_mem host (List.mem_of_mem_take member) with
  | world => exact ⟨head', anchored'.put_other (Or.inl rfl) _ _, below⟩
  | account dirty => exact ⟨head', anchored'.put_other (Or.inl rfl) _ _, below⟩
  | header =>
      refine ⟨_, anchored'.put_header sound below aged, ?_⟩
      split
      next => exact UInt64.le_refl _
      next => exact below
  | number => exact ⟨head', anchored'.put_number other _, below⟩
  | content cf => exact ⟨head', anchored'.put_other (Or.inr cf) _ _, below⟩

/-- From then on it leads to the block. -/
theorem Accepted.anchored_announced
    : Anchored host accepted.announced block.header block.number := by
  obtain ⟨grows, aged⟩ := (accepted.follows_head isHead).aged anchored.aged
  obtain ⟨head', pending, below⟩ :=
    accepted.anchored_pending sound anchored isHead accepted.pendingPuts.length
  rw [List.take_length] at pending
  have kept (cf : ColumnFamily) (ne : cf ≠ .metadata)
      : accepted.announced.contents cf
        = (chain.db.replay accepted.pendingPuts).contents cf :=
    Database.contents_putLatestBlockNumber ne _ _
  have stored := replay_pendingPuts host order block accepted.processed accepted.world chain
  refine ⟨⟨Database.getLatestBlockNumber_put _ _, ?_, ?_⟩, UInt64.le_refl _, aged, ?_⟩
  · rw [Database.getBlockHashByNumber_congr (kept _ (by decide)), Accepted.pendingPuts, stored,
      Database.getBlockHashByNumber_putBlock, if_pos rfl]
    rfl
  · rw [Database.getHeader_congr (kept _ (by decide)), Accepted.pendingPuts, stored,
      Database.getHeader_putBlock host.crypto (sound block.header)]
    exact if_pos rfl
  · intro txHash data found
    rw [Database.getReceipt, Database.getCf, kept _ (by decide)] at found
    obtain ⟨receipt, encoded, old⟩ := pending.receipts txHash data found
    exact ⟨receipt, encoded, UInt64.le_trans old below⟩

/-- The receipts of the block do not change that. -/
theorem Accepted.anchored_receipts (n : Nat)
    : Anchored host
        (accepted.announced.replay
          ((receiptPuts host (block.hash host.crypto) accepted.processed.receipts).take n))
        block.header block.number := by
  refine @replay_invariant Put Database Put.run
    (fun db => Anchored host db block.header block.number) _ _ ?_
    (accepted.anchored_announced sound anchored isHead)
  intro put member db anchored'
  obtain ⟨receipt, found, rfl⟩ := List.mem_map.mp (List.mem_of_mem_take member)
  have number := accepted.receipts_blockNumber found
  have old
      : { receipt with blockHash := block.hash host.crypto }.blockNumber
        ≤ block.header.number :=
    UInt64.le_of_eq number
  exact anchored'.put_receipt old _

/-- After every prefix of the writes the database leads to a head. -/
theorem Accepted.anchored_take (n : Nat)
    : ∃ head' latest',
        Anchored host (chain.db.replay (accepted.puts.take n)) head' latest' := by
  rw [accepted.puts_eq]
  rcases take_cases accepted.pendingPuts
      (receiptPuts host (block.hash host.crypto) accepted.processed.receipts)
      (Database.latestPut block.number) n with early | ⟨k, late⟩
  · obtain ⟨head', pending, _⟩ := accepted.anchored_pending sound anchored isHead n
    rw [early]
    exact ⟨head', latest, pending⟩
  · have announced := accepted.anchored_receipts sound anchored isHead k
    refine ⟨block.header, block.number, ?_⟩
    rw [late, Database.replay, replay_append, replay_cons]
    exact announced

end Prefixes

-----------------------------------------------------------------------------------------
-- Running nodes
-----------------------------------------------------------------------------------------

section Runs

variable [F32 F] (host : Host F)

/-- The chain that initialization leaves: the allocated accounts, a new world and genesis. -/
def initialized (consensus : PoaConsensus) (chainId seed : UInt64)
    (alloc : List (Address × U256)) (drained : IterationOrder Address Account)
    (walk : EntityOrder F) : Chain F :=
  let state := alloc.foldl (fun state entry =>
    state.putAccount entry.1 (Account.withBalance entry.2)) WorldState.new
  let (_, state, db) := state.commit host.account .empty host.crypto.keccak256 drained
  let world := GameWorld.new host.crypto.keccak256 seed
  (Chain.new db state world .new consensus chainId).initGenesis host
    (.genesis (world.ecs.stateHash host.crypto.keccak256 host.ecs walk))

/-- The chain has been initialized and run since, through shutdowns and crashes. A running node
imports and produces blocks; it does not reorganize its chain.
-/
inductive Reachable : Chain F → Prop
  | init (consensus : PoaConsensus) (chainId seed : UInt64) (alloc : List (Address × U256))
      (drained : IterationOrder Address Account) (walk : EntityOrder F)
    : Reachable (initialized host consensus chainId seed alloc drained walk)
  | step {chain : Chain F} (before : Reachable chain) (s : NodeStep F)
      (runs : ∀ forkPoint newBlocks, s ≠ .reorg forkPoint newBlocks)
    : Reachable (chain.step host s)
  | shutdown {chain : Chain F} (before : Reachable chain) (walk : EntityOrder F)
    : Reachable
        ({ chain with
            db :=
              chain.db.putGameState "world".toUTF8.toList
                (chain.gameWorld.serializeState host.ecs walk) }.restart host)
  | crash {chain : Chain F} (before : Reachable chain) {order : BlockOrder F} {block : Block}
      (accepted : Accepted host order block chain) (n : Nat)
    : Reachable ({ chain with db := chain.db.replay (accepted.puts.take n) }.restart host)

/-- A node whose database leads to its head. Its game world has given out all the ids that are
stored.
-/
structure Steady (chain : Chain F) : Prop where
  anchored
    : ∃ head latest, chain.head = some head ∧ Anchored host chain.db head latest
  entities
    : (restoredWorld host chain.db chain.gameWorld.seed).ecs.nextEntityId
      ≤ chain.gameWorld.ecs.nextEntityId
  known : chain.gameWorld.spawnManager.Known

variable {host}

/-- A restarted node is steady. -/
theorem Steady.restart {chain : Chain F} {head : BlockHeader} {latest : UInt64}
    (anchored : Anchored host chain.db head latest)
    : Steady host (chain.restart host) := by
  obtain ⟨seed, known⟩ := @restoredWorld_spec F host _ chain.db chain.gameWorld.seed
  have isHead := anchored.stored.head_restart
  obtain ⟨found, frame⟩ := @restart_frame F _ host chain
  rw [frame] at isHead ⊢
  refine ⟨⟨head, latest, isHead, anchored⟩, ?_, known⟩
  simp only [Chain.new, seed]
  exact Nat.le_refl _

/-- A block application keeps the game world or ticks it, whether it succeeds or fails. -/
theorem applyBlock_gameWorld (order : BlockOrder F) (block : Block) (chain : Chain F)
    : (chain.applyBlock host order block).2.gameWorld = chain.gameWorld
      ∨ ∃ actions,
          (chain.applyBlock host order block).2.gameWorld
          = (chain.gameWorld.tick host.crypto host.ecs order.tick actions).2 := by
  unfold applyBlock
  repeat'
    split
  any_goals exact Or.inl rfl
  all_goals
    next ticks => exact Or.inr ⟨_, (congrArg Prod.snd ticks).symm⟩

theorem applyBlock_grown (order : BlockOrder F) (block : Block) (chain : Chain F)
    : GameWorld.Grown chain.gameWorld (chain.applyBlock host order block).2.gameWorld := by
  rcases @applyBlock_gameWorld F _ host order block chain with same | ⟨actions, same⟩
  · rw [same]
    exact GameWorld.Grown.refl _
  · rw [same]
    exact GameWorld.grown_tick _ _ _

/-- Applying a block keeps a node steady, whether it succeeds or fails. -/
theorem Steady.applyBlock (sound : host.blocks.header.RoundTrips)
    (reads : host.ecs.RoundTrips) {chain : Chain F} (steady : Steady host chain)
    (order : BlockOrder F) (block : Block)
    : Steady host (chain.applyBlock host order block).2 := by
  obtain ⟨head, latest, isHead, anchored⟩ := steady.anchored
  have grown := @applyBlock_grown F _ host order block chain
  rcases call : chain.applyBlock host order block with ⟨e | _, next⟩
  · rw [call] at grown
    obtain ⟨evm, state, gameWorld, rfl⟩ := applyBlock_error call
    have seed : gameWorld.seed = chain.gameWorld.seed := grown.seed
    refine ⟨⟨head, latest, isHead, anchored⟩, ?_, grown.known steady.known⟩
    simp only [seed]
    exact Nat.le_trans steady.entities grown.ids
  · rw [call] at grown
    obtain ⟨accepted, rfl⟩ := applyBlock_ok_iff.mp call
    have announced := accepted.anchored_receipts sound anchored isHead
      (receiptPuts host (block.hash host.crypto) accepted.processed.receipts).length
    rw [List.take_length, ← accepted.db_announced] at announced
    refine ⟨⟨block.header, block.number, rfl, announced⟩, ?_, grown.known steady.known⟩
    exact Nat.le_of_eq (congrArg EcsWorld.nextEntityId (accepted.ecs_restoredWorld reads _))

omit [F32 F] in
/-- Initialization stores the genesis block and no receipt. -/
theorem anchored_initGenesis (sound : host.blocks.header.RoundTrips) (chain : Chain F)
    (root : B256) (noReceipts : ∀ key, chain.db.contents .receipts key = none)
    : Anchored host (chain.initGenesis host (.genesis root)).db (.genesis root) 0 := by
  have kept (cf : ColumnFamily) (ne : cf ≠ .metadata)
      : (chain.initGenesis host (.genesis root)).db.contents cf
        = (chain.db.putBlock host.crypto host.blocks
            (Block.new (.genesis root) [])).contents cf :=
    Database.contents_putLatestBlockNumber ne _ _
  refine ⟨⟨Database.getLatestBlockNumber_put _ _, ?_, ?_⟩, UInt64.le_refl _, ?_, ?_⟩
  · rw [Database.getBlockHashByNumber_congr (kept _ (by decide)),
      Database.getBlockHashByNumber_putBlock]
    rfl
  · rw [Database.getHeader_congr (kept _ (by decide)),
      Database.getHeader_putBlock host.crypto (sound _)]
    exact if_pos rfl
  · exact UInt64.le_refl _
  · intro txHash data found
    rw [Database.getReceipt, Database.getCf, kept _ (by decide),
      Database.contents_putBlock_of_ne (by decide) (by decide) (by decide) (by decide),
      noReceipts] at found
    cases found

/-- Initialization stores no game world. -/
theorem getGameState_initialized (consensus : PoaConsensus) (chainId seed : UInt64)
    (alloc : List (Address × U256)) (drained : IterationOrder Address Account)
    (walk : EntityOrder F)
    : (initialized host consensus chainId seed alloc drained walk).db.getGameState
        "world".toUTF8.toList
      = none :=
  (Database.getGameState_congr ((Database.contents_putLatestBlockNumber (by decide) _ _).trans
    (Database.contents_putBlock_of_ne (by decide) (by decide) (by decide) (by decide))) _).trans
    (WorldState.contents_writeAccounts _ _ _ _ _
      (Or.inr (fun address _ => (addressSlice_ne_world address).symm)))

theorem Steady.initialized (sound : host.blocks.header.RoundTrips) (consensus : PoaConsensus)
    (chainId seed : UInt64) (alloc : List (Address × U256))
    (drained : IterationOrder Address Account) (walk : EntityOrder F)
    : Steady host (initialized host consensus chainId seed alloc drained walk) := by
  refine ⟨⟨_, 0, rfl, anchored_initGenesis sound _ _ ?_⟩, ?_, ?_⟩
  · intro key
    exact WorldState.contents_writeAccounts _ _ _ _ key (Or.inl (by decide))
  · simp only [restoredWorld, getGameState_initialized]
    exact Nat.le_refl _
  · exact (SpawnManager.known_generateSpawnPoints host.crypto.keccak256 seed).tickSpawns

/-- Every step of a running node keeps it steady. -/
theorem Steady.step (sound : host.blocks.header.RoundTrips) (reads : host.ecs.RoundTrips)
    {chain : Chain F} (steady : Steady host chain) (s : NodeStep F)
    (runs : ∀ forkPoint newBlocks, s ≠ .reorg forkPoint newBlocks)
    : Steady host (chain.step host s) := by
  have prepared (now : UInt64) : Steady host (chain.prepareOnly host now) := by
    obtain ⟨head, latest, isHead, anchored⟩ := steady.anchored
    simp only [prepareOnly, isHead]
    exact ⟨⟨head, latest, rfl, anchored⟩, steady.entities, steady.known⟩
  cases s with
  | importBlock block order => exact steady.applyBlock sound reads order block
  | reorg forkPoint newBlocks => exact absurd rfl (runs forkPoint newBlocks)
  | produce now senders order =>
      rcases @produceBlock_cases F _ host now senders order chain with same | ⟨block, same, _⟩
      · rw [Chain.step, same]
        exact prepared now
      · rw [Chain.step, same]
        exact (prepared now).applyBlock sound reads order block
  | prepare now => exact prepared now
  | addTransaction tx => exact ⟨steady.anchored, steady.entities, steady.known⟩
  | readAccount address => exact ⟨steady.anchored, steady.entities, steady.known⟩
  | restart =>
      obtain ⟨head, latest, _, anchored⟩ := steady.anchored
      exact Steady.restart anchored

/-- Every running node is steady, by induction on its steps and crashes. -/
theorem Reachable.steady (sound : host.blocks.header.RoundTrips)
    (reads : host.ecs.RoundTrips) {chain : Chain F} (reachable : Reachable host chain)
    : Steady host chain := by
  induction reachable with
  | init consensus chainId seed alloc drained walk =>
      exact Steady.initialized sound consensus chainId seed alloc drained walk
  | step _ s runs ih => exact ih.step sound reads s runs
  | shutdown _ walk ih =>
      obtain ⟨head, latest, _, anchored⟩ := ih.anchored
      exact Steady.restart (anchored.put_other (Or.inl rfl) _ _)
  | @crash chain _ order block accepted n ih =>
      obtain ⟨head, latest, isHead, anchored⟩ := ih.anchored
      obtain ⟨head', latest', stopped⟩ := accepted.anchored_take sound anchored isHead n
      exact Steady.restart stopped

end Runs

end VeloChain.Chain
