import VeloChain.GameEngine.Determinism
import VeloChain.Node.CanonicalIndex
import VeloChain.Node.CrashRecovery

/-! Nodes that have been initialized and have run since, with everything that can happen to them.
Their database describes the chain of the head, and the game worlds they run and store have no
two entities for one player.
-/

namespace VeloChain.Chain

variable {F : Type} [F32 F]

-----------------------------------------------------------------------------------------
-- Runs
-----------------------------------------------------------------------------------------

section Runs

variable (host : Host F)

/-- The blocks that a step may apply to the chain. -/
def Takes (chain : Chain F) (block : Block) : NodeStep F → Prop
  | .importBlock imported _ => imported = block
  | .reorg _ newBlocks => ∃ entry ∈ newBlocks, entry.1 = block
  | .produce now senders order => (chain.produceBlock host now senders order).1 = .ok block
  | .prepare _ => False
  | .addTransaction _ => False
  | .readAccount _ => False
  | .restart => False

/-- The chain has been initialized and has run since, through shutdowns and crashes. The headers
of genesis and of all blocks on the way are known.
-/
inductive Running (known : Set BlockHeader) : Chain F → Prop
  | init (consensus : PoaConsensus) (chainId seed : UInt64) (alloc : List (Address × U256))
      (drained : IterationOrder Address Account) (walk : EntityOrder F)
      (listed
        : ∀ genesis,
            (initialized host consensus chainId seed alloc drained walk).head = some genesis
            → genesis ∈ known)
    : Running known (initialized host consensus chainId seed alloc drained walk)
  | step {chain : Chain F} (before : Running known chain) (s : NodeStep F)
      (listed : ∀ block, chain.Takes host block s → block.header ∈ known)
    : Running known (chain.step host s)
  | shutdown {chain : Chain F} (before : Running known chain) (walk : EntityOrder F)
    : Running known
        ({ chain with
            db :=
              chain.db.putGameState "world".toUTF8.toList
                (chain.gameWorld.serializeState host.ecs walk) }.restart host)
  | crash {chain : Chain F} (before : Running known chain) {order : BlockOrder F}
      {block : Block} (accepted : Accepted host order block chain)
      (listed : block.header ∈ known) (n : Nat)
    : Running known ({ chain with db := chain.db.replay (accepted.puts.take n) }.restart host)

/-- Headers whose numbers do not run ahead of their timestamps. -/
def aged (known : Set BlockHeader) : Set BlockHeader :=
  { header | header ∈ known ∧ header.number ≤ header.timestamp }

/-- A stored game world that can be read is well-formed. -/
def StoredWellformed (db : Database) : Prop :=
  ∀ data ecs, db.getGameState "world".toUTF8.toList = some data → host.ecs.decode data = .ok ecs
    → ecs.Wellformed

/-- What a running node keeps: an index of its chain, and well-formed game worlds. -/
structure Kept (known : Set BlockHeader) (chain : Chain F) : Prop where
  indexed : ∃ head, Indexed host (aged known) chain head
  wellformed : chain.gameWorld.ecs.Wellformed
  stored : StoredWellformed host chain.db

end Runs

variable {host : Host F} {known : Set BlockHeader} {chain : Chain F}

-----------------------------------------------------------------------------------------
-- Game worlds
-----------------------------------------------------------------------------------------

theorem wellformed_applyBlock (wellformed : chain.gameWorld.ecs.Wellformed)
    (order : BlockOrder F) (block : Block)
    : (chain.applyBlock host order block).2.gameWorld.ecs.Wellformed := by
  rcases @applyBlock_gameWorld F _ host order block chain with same | ⟨actions, same⟩
  · rwa [same]
  · rw [same]
    exact GameWorld.wellformed_tick order.tick actions wellformed

/-- A restored world is well-formed when the stored one is. -/
theorem StoredWellformed.restoredWorld {db : Database} (stored : StoredWellformed host db)
    (seed : UInt64)
    : (restoredWorld host db seed).ecs.Wellformed := by
  have fresh : (GameWorld.new host.crypto.keccak256 seed : GameWorld F).ecs.Wellformed :=
    (@GameWorld.Reachable.new F _ host.crypto host.ecs seed).wellformed
  unfold Chain.restoredWorld
  split
  next => exact fresh
  next data found =>
    unfold GameWorld.fromState
    cases decoded : host.ecs.decode data with
    | error e => exact fresh
    | ok ecs => exact stored data ecs found decoded

omit [F32 F] in
/-- Storing a well-formed world keeps the stored world well-formed. -/
theorem StoredWellformed.put_world (reads : host.ecs.RoundTrips) {world : GameWorld F}
    (wellformed : world.ecs.Wellformed) (walk : EntityOrder F) (db : Database)
    : StoredWellformed host
        (db.putGameState "world".toUTF8.toList (world.serializeState host.ecs walk)) := by
  intro data ecs found decoded
  have written
      : (db.putGameState "world".toUTF8.toList
          (world.serializeState host.ecs walk)).getGameState "world".toUTF8.toList
        = some (world.serializeState host.ecs walk) := by
    simp only [Database.getGameState, Database.putGameState, Database.getCf,
      Database.contents_putCf, and_self, if_true]
  have read : host.ecs.decode (world.serializeState host.ecs walk) = .ok world.ecs :=
    reads world.ecs walk
  obtain rfl := Option.some.inj (written.symm.trans found)
  obtain rfl := Except.ok.inj (read.symm.trans decoded)
  exact wellformed

omit [F32 F] in
/-- Everything else that is stored is not the world. -/
theorem StoredWellformed.put_other {db : Database} (stored : StoredWellformed host db)
    {put : Put} (other : put.cf ≠ .gameState ∨ put.key ≠ "world".toUTF8.toList)
    : StoredWellformed host (put.run db) := by
  intro data ecs found decoded
  refine stored data ecs ?_ decoded
  rw [← found, Database.getGameState, Database.getGameState, Database.getCf, Database.getCf,
    Put.run, Database.contents_putCf]
  refine (if_neg ?_).symm
  rintro ⟨sameCf, sameKey⟩
  exact other.elim (fun ne => ne sameCf.symm) (fun ne => ne sameKey.symm)

-----------------------------------------------------------------------------------------
-- Writes that keep the index
-----------------------------------------------------------------------------------------

section Index

variable {headers : Set BlockHeader} {head : BlockHeader}

omit [F32 F] in
theorem storedBlock_congr {db db' : Database}
    (sameHeaders : db'.contents .headers = db.contents .headers)
    (sameBodies : db'.contents .bodies = db.contents .bodies) {header : BlockHeader}
    (stored : storedBlock host db header)
    : storedBlock host db' header := by
  obtain ⟨found, body, read⟩ := stored
  refine ⟨(Database.getHeader_congr sameHeaders _ _).trans found, body, ?_⟩
  exact (Database.getBody_congr sameBodies _ _).trans read

variable (indexed : Indexed host headers chain head)

include indexed

omit [F32 F] in
/-- Game state, transaction index and receipts do not matter. -/
theorem Indexed.put_other {cf : ColumnFamily}
    (other : cf = .gameState ∨ cf = .transactions ∨ cf = .receipts) (key value : Bytes)
    : Indexed host headers { chain with db := chain.db.putCf cf key value } head := by
  have kept (cf' : ColumnFamily) (ne : cf' ≠ cf)
      : (chain.db.putCf cf key value).contents cf' = chain.db.contents cf' :=
    Database.contents_putCf_of_ne ne key value
  refine indexed.congr (Database.getLatestBlockNumber_congr (kept _ ?_))
    (fun number _ => Database.getBlockHashByNumber_congr (kept _ ?_) number)
    (fun header _ stored => storedBlock_congr (kept _ ?_) (kept _ ?_) stored)
  all_goals
    rcases other with rfl | rfl | rfl <;> decide

omit [F32 F] in
/-- A header that is known is stored under a hash of its own. -/
theorem Indexed.put_header (headersRead : host.blocks.header.RoundTrips)
    (collisionFree : Set.InjOn (BlockHeader.hash host.crypto) headers) {header : BlockHeader}
    (member : header ∈ headers)
    : Indexed host headers
        { chain with
          db :=
            chain.db.putCf .headers (hashSlice (header.hash host.crypto))
              (host.blocks.header.encode header) } head := by
  have kept (cf : ColumnFamily) (ne : cf ≠ .headers)
      : (chain.db.putCf .headers (hashSlice (header.hash host.crypto))
          (host.blocks.header.encode header)).contents cf = chain.db.contents cf :=
    Database.contents_putCf_of_ne ne _ _
  refine indexed.congr (Database.getLatestBlockNumber_congr (kept _ (by decide)))
    (fun number _ => Database.getBlockHashByNumber_congr (kept _ (by decide)) number) ?_
  rintro record recordMember ⟨found, body, read⟩
  refine ⟨?_, body, (Database.getBody_congr (kept _ (by decide)) _ _).trans read⟩
  rw [getHeader_put headersRead]
  split
  next same => rw [collisionFree recordMember member same]
  next => exact found

omit [F32 F] in
/-- The hash of a higher number does not matter. -/
theorem Indexed.put_number {number : UInt64} (higher : head.number < number) (value : Bytes)
    : Indexed host headers
        { chain with
          db := chain.db.putCf .blockNumberToHash (Database.numberKey number) value } head := by
  have kept (cf : ColumnFamily) (ne : cf ≠ .blockNumberToHash)
      : (chain.db.putCf .blockNumberToHash (Database.numberKey number) value).contents cf
        = chain.db.contents cf :=
    Database.contents_putCf_of_ne ne _ _
  refine indexed.congr (Database.getLatestBlockNumber_congr (kept _ (by decide))) ?_
    (fun header _ stored =>
      storedBlock_congr (kept _ (by decide)) (kept _ (by decide)) stored)
  intro below reached
  have other : below ≠ number := UInt64.ne_of_lt (UInt64.lt_of_le_of_lt reached higher)
  simp only [Database.getBlockHashByNumber, Database.getCf, Database.contents_putCf,
    Database.numberKey_inj, other, and_false, if_false]

omit [F32 F] in
/-- Any body may be stored under any hash. -/
theorem Indexed.put_body (bodiesRead : host.blocks.body.RoundTrips) (hash : B256)
    (body : BlockBody)
    : Indexed host headers
        { chain with
          db := chain.db.putCf .bodies (hashSlice hash) (host.blocks.body.encode body) }
        head := by
  have kept (cf : ColumnFamily) (ne : cf ≠ .bodies)
      : (chain.db.putCf .bodies (hashSlice hash) (host.blocks.body.encode body)).contents cf
        = chain.db.contents cf :=
    Database.contents_putCf_of_ne ne _ _
  refine indexed.congr (Database.getLatestBlockNumber_congr (kept _ (by decide)))
    (fun number _ => Database.getBlockHashByNumber_congr (kept _ (by decide)) number) ?_
  rintro record _ ⟨found, old, read⟩
  refine ⟨(Database.getHeader_congr (kept _ (by decide)) _ _).trans found, ?_⟩
  by_cases same : record.hash host.crypto = hash
  · exact ⟨body, by simp [Database.getBody, Database.getCf, Database.contents_putCf, same,
      show host.blocks.body.decode _ = _ from bodiesRead body]⟩
  · refine ⟨old, ?_⟩
    rw [← read]
    simp only [Database.getBody, Database.getCf, Database.contents_putCf, hashSlice_inj, same,
      and_false, if_false]

end Index

-----------------------------------------------------------------------------------------
-- The log of a block
-----------------------------------------------------------------------------------------

section Prefixes

variable {order : BlockOrder F} {block : Block} {head : BlockHeader}

omit [F32 F] in
/-- The only write of a body is that of the block. -/
theorem eq_bodyPut_of_mem (host : Host F) {execution : Execution} {world : GameWorld F}
    {put : Put} (member : put ∈ pendingPuts host order block execution world)
    (isBody : put.cf = .bodies)
    : put
      = { cf := .bodies
          key := hashSlice (block.hash host.crypto)
          value := host.blocks.body.encode block.body } := by
  simp only [pendingPuts, Database.blockPuts, Database.headerPuts, List.mem_cons,
    List.mem_append, List.not_mem_nil, or_false] at member
  rcases member with rfl | account | (rfl | rfl) | rfl | index
  · cases isBody
  · obtain ⟨_, _, _, _, rfl⟩ := (WorldState.mem_accountPuts host.account).mp account
    cases isBody
  · cases isBody
  · cases isBody
  · rfl
  · have isIndex := Database.cf_transactionPuts host.blocks index
    rw [isBody] at isIndex
    cases isIndex

theorem Accepted.wellformed (accepted : Accepted host order block chain)
    (wellformed : chain.gameWorld.ecs.Wellformed)
    : accepted.world.ecs.Wellformed := by
  have ticked := @GameWorld.wellformed_tick F _ host.crypto host.ecs order.tick
    accepted.parts.gameActions chain.gameWorld wellformed
  rwa [accepted.ticks] at ticked

/-- Every part of the log keeps the stored world well-formed. -/
theorem Accepted.storedWellformed_replay (reads : host.ecs.RoundTrips)
    (accepted : Accepted host order block chain) (wellformed : chain.gameWorld.ecs.Wellformed)
    (stored : StoredWellformed host chain.db) {puts : List Put} (part : puts ⊆ accepted.puts)
    : StoredWellformed host (chain.db.replay puts) := by
  refine CommitPoint.replay_invariant ?_ stored
  intro put member db stored
  have listed := part member
  rw [accepted.puts_eq, List.mem_append, List.mem_cons] at listed
  rcases listed with pending | rfl | receipt
  · cases pendingPut_of_mem host pending with
    | world =>
        exact StoredWellformed.put_world reads (accepted.wellformed wellformed) order.persist db
    | account dirty => exact stored.put_other (Or.inr (addressSlice_ne_world _))
    | header => exact stored.put_other (Or.inl (by simp))
    | number => exact stored.put_other (Or.inl (by simp))
    | content cf =>
        exact stored.put_other (Or.inl (by rcases cf with same | same <;> simp [same]))
  · exact stored.put_other (Or.inl (by simp [Database.latestPut]))
  · obtain ⟨_, _, rfl⟩ := List.mem_map.mp receipt
    exact stored.put_other (Or.inl (by simp))

variable (indexed : Indexed host (aged known) chain head)
  (accepted : Accepted host order block chain) (listed : block.header ∈ known)

include indexed accepted listed

/-- A block on top of an aged head is higher, and aged. -/
theorem Indexed.child
    : head.number < block.header.number ∧ block.header ∈ aged known := by
  obtain ⟨grows, old⟩ :=
    (accepted.follows_head indexed.isHead).aged indexed.canonical.member.2
  exact ⟨grows, listed, old⟩

variable (headersRead : host.blocks.header.RoundTrips)
  (bodiesRead : host.blocks.body.RoundTrips)
  (collisionFree : Set.InjOn (BlockHeader.hash host.crypto) known)

include headersRead bodiesRead collisionFree

/-- Before its number is the latest one, a block does not move the head. -/
theorem Indexed.replay_pending (n : Nat)
    : Indexed host (aged known)
        { chain with db := chain.db.replay (accepted.pendingPuts.take n) } head := by
  obtain ⟨grows, member⟩ := indexed.child accepted listed
  have tellsApart := collisionFree.mono (fun _ (member : _ ∈ aged known) => member.1)
  refine @CommitPoint.replay_invariant Put Database Put.run
    (fun db => Indexed host (aged known) { chain with db } head) _ _ ?_ indexed
  intro put found db indexed
  have pending := List.mem_of_mem_take found
  cases pendingPut_of_mem host pending with
  | world => exact indexed.put_other (Or.inl rfl) _ _
  | account dirty => exact indexed.put_other (Or.inl rfl) _ _
  | header => exact indexed.put_header headersRead tellsApart member
  | number => exact indexed.put_number grows _
  | content cf =>
      rcases cf with isBody | isIndex
      · obtain rfl := eq_bodyPut_of_mem host pending isBody
        exact indexed.put_body bodiesRead _ _
      · exact indexed.put_other (Or.inr (Or.inl isIndex)) _ _

/-- From then on the block is the head. -/
theorem Indexed.replay_announced (n : Nat)
    : Indexed host (aged known)
        { accepted.result with
          db :=
            accepted.announced.replay
              ((receiptPuts host (block.hash host.crypto) accepted.processed.receipts).take n) }
        block.header := by
  obtain ⟨_, member⟩ := indexed.child accepted listed
  have tellsApart := collisionFree.mono (fun _ (member : _ ∈ aged known) => member.1)
  have finished := indexed.result tellsApart accepted member (headersRead _) (bodiesRead _)
  have same {cf : ColumnFamily} (other : cf ≠ .receipts)
      : (accepted.announced.replay
            ((receiptPuts host (block.hash host.crypto)
              accepted.processed.receipts).take n)).contents cf
        = accepted.result.db.contents cf := by
    rw [accepted.db_announced, replay_receiptPuts, receiptPuts, ← List.map_take]
    exact (congrFun (congrArg _ (replay_receiptPuts host _ _ _)) cf).trans
      ((Database.contents_storeReceipts host _ _ _ other).trans
        (Database.contents_storeReceipts host _ _ _ other).symm)
  exact finished.congr (Database.getLatestBlockNumber_congr (same (by decide)))
    (fun number _ => Database.getBlockHashByNumber_congr (same (by decide)) number)
    (fun header _ stored => storedBlock_congr (same (by decide)) (same (by decide)) stored)

end Prefixes

-----------------------------------------------------------------------------------------
-- What a running node keeps
-----------------------------------------------------------------------------------------

/-- A node that restarts on an indexed database keeps its chain. -/
theorem Kept.restart (collisionFree : Set.InjOn (BlockHeader.hash host.crypto) known)
    {head : BlockHeader} (indexed : Indexed host (aged known) chain head) {other : Chain F}
    (same : other.db = chain.db) (stored : StoredWellformed host other.db)
    : Kept host known (other.restart host) := by
  have tellsApart := collisionFree.mono (fun _ (member : _ ∈ aged known) => member.1)
  have latest := indexed.latest
  have canonical := indexed.canonical
  rw [← same] at latest canonical
  have restored := @Indexed.restoreHead F host (aged known) chain head indexed tellsApart
    (Chain.new other.db .new (Chain.restoredWorld host other.db other.gameWorld.seed) .new
      { other.consensus with gameTick := 0 } other.chainId) same
  rw [Chain.restart, restored]
  exact ⟨⟨head, rfl, latest, canonical⟩, stored.restoredWorld _, stored⟩

omit [F32 F] in
/-- Steps that leave database, head and game world alone keep everything. -/
theorem Kept.congr (kept : Kept host known chain) {other : Chain F} (db : other.db = chain.db)
    (head : other.head = chain.head) (gameWorld : other.gameWorld = chain.gameWorld)
    : Kept host known other := by
  obtain ⟨found, isHead, latest, canonical⟩ := kept.indexed
  rw [← db] at latest canonical
  exact ⟨⟨found, head.trans isHead, latest, canonical⟩, gameWorld ▸ kept.wellformed,
    db ▸ kept.stored⟩

section Steps

variable (headersRead : host.blocks.header.RoundTrips)
  (bodiesRead : host.blocks.body.RoundTrips) (entitiesRead : host.ecs.RoundTrips)
  (collisionFree : Set.InjOn (BlockHeader.hash host.crypto) known)

include headersRead bodiesRead entitiesRead collisionFree

/-- A block that is applied or refused keeps what a running node keeps. It is known if it is
applied.
-/
theorem Kept.applyBlock (kept : Kept host known chain) {order : BlockOrder F} {block : Block}
    (listed : (chain.applyBlock host order block).1 = .ok () → block.header ∈ known)
    : Kept host known (chain.applyBlock host order block).2 := by
  obtain ⟨head, indexed⟩ := kept.indexed
  have wellformed := @wellformed_applyBlock F _ host chain kept.wellformed order block
  rcases call : chain.applyBlock host order block with ⟨e | _, after⟩
  · rw [call] at wellformed
    obtain ⟨evm, state, gameWorld, rfl⟩ := applyBlock_error call
    exact ⟨⟨head, indexed.isHead, indexed.latest, indexed.canonical⟩, wellformed, kept.stored⟩
  · rw [call] at wellformed listed
    obtain ⟨accepted, rfl⟩ := applyBlock_ok_iff.mp call
    have tellsApart := collisionFree.mono (fun _ (member : _ ∈ aged known) => member.1)
    obtain ⟨_, member⟩ := indexed.child accepted (listed rfl)
    refine ⟨⟨block.header,
      indexed.result tellsApart accepted member (headersRead _) (bodiesRead _)⟩, wellformed, ?_⟩
    rw [accepted.db_result]
    exact accepted.storedWellformed_replay entitiesRead kept.wellformed kept.stored
      (List.Subset.refl _)

/-- A crash in the middle of the writes of a block keeps it, too. -/
theorem Kept.crash (kept : Kept host known chain) {order : BlockOrder F} {block : Block}
    (accepted : Accepted host order block chain) (listed : block.header ∈ known) (n : Nat)
    : Kept host known
        ({ chain with db := chain.db.replay (accepted.puts.take n) }.restart host) := by
  obtain ⟨head, indexed⟩ := kept.indexed
  have stored := accepted.storedWellformed_replay entitiesRead kept.wellformed kept.stored
    (List.take_subset n _)
  have pending := indexed.replay_pending accepted listed headersRead bodiesRead collisionFree n
  rcases CommitPoint.take_cases accepted.pendingPuts
      (receiptPuts host (block.hash host.crypto) accepted.processed.receipts)
      (Database.latestPut block.number) n with early | ⟨k, late⟩
  · rw [← early, ← accepted.puts_eq] at pending
    exact Kept.restart collisionFree pending rfl stored
  · have announced := indexed.replay_announced accepted listed headersRead bodiesRead
      collisionFree k
    refine Kept.restart collisionFree announced ?_ stored
    rw [accepted.puts_eq, late, Database.replay, CommitPoint.replay_append,
      CommitPoint.replay_cons]
    rfl

/-- Every step keeps it, where the blocks it applies are known. -/
theorem Kept.step (kept : Kept host known chain) {s : NodeStep F}
    (listed : ∀ block, chain.Takes host block s → block.header ∈ known)
    : Kept host known (chain.step host s) := by
  have prepared (now : UInt64) : Kept host known (chain.prepareOnly host now) := by
    refine kept.congr ?_ ?_ ?_ <;> unfold Chain.prepareOnly <;> split <;> rfl
  cases s with
  | importBlock block order =>
      exact kept.applyBlock headersRead bodiesRead entitiesRead collisionFree
        (fun _ => listed block rfl)
  | reorg forkPoint newBlocks =>
      refine executeReorg_invariant (Kept host known) kept ?_ ?_ ?_
      · intro state number _ kept
        obtain ⟨txpool, frame⟩ := @revertBlock_frame F host number state
        rw [frame]
        exact kept.congr rfl rfl rfl
      · intro state block kept reached found
        obtain ⟨head, indexed⟩ := kept.indexed
        have tellsApart := collisionFree.mono (fun _ (member : _ ∈ aged known) => member.1)
        have height : state.blockNumber = head.number := by
          simp only [blockNumber, indexed.isHead, Option.map_some, Option.getD_some]
        rw [height] at reached
        obtain ⟨stored, read, above, _⟩ := indexed.getBlockByNumber reached
        obtain rfl := Option.some.inj (Except.ok.inj (read.symm.trans found))
        refine ⟨⟨stored.header, indexed.setHead tellsApart above⟩, kept.wellformed, ?_⟩
        exact @StoredWellformed.put_other F host _ kept.stored
          (Database.latestPut stored.header.number) (Or.inl (by simp [Database.latestPut]))
      · intro state entry member kept
        exact kept.applyBlock headersRead bodiesRead entitiesRead collisionFree
          (fun _ => listed entry.1 ⟨entry, member, rfl⟩)
  | produce now senders order =>
      rcases @produceBlock_cases F _ host now senders order chain with same | ⟨block, same, made⟩
      · rw [Chain.step, same]
        exact prepared now
      · rw [Chain.step, same]
        exact (prepared now).applyBlock headersRead bodiesRead entitiesRead collisionFree
          (fun applied => listed block (made applied))
  | prepare now => exact prepared now
  | addTransaction tx => exact kept.congr rfl rfl rfl
  | readAccount address => exact kept.congr rfl rfl rfl
  | restart =>
      obtain ⟨head, indexed⟩ := kept.indexed
      exact Kept.restart collisionFree indexed rfl kept.stored

/-- Every running node keeps it, by induction on its steps, shutdowns and crashes. -/
theorem Running.kept (running : Running host known chain) : Kept host known chain := by
  induction running with
  | init consensus chainId seed alloc drained walk listed =>
      refine ⟨⟨_, Indexed.initGenesis (And.intro (listed _ rfl) (UInt64.le_refl _)) rfl
        (headersRead _) (bodiesRead _) _⟩, ?_, ?_⟩
      · exact (@GameWorld.Reachable.new F _ host.crypto host.ecs seed).wellformed
      · intro data ecs found
        rw [getGameState_initialized] at found
        cases found
  | step _ s listed ih =>
      exact ih.step headersRead bodiesRead entitiesRead collisionFree listed
  | shutdown _ walk ih =>
      obtain ⟨head, indexed⟩ := ih.indexed
      exact Kept.restart collisionFree (indexed.put_other (Or.inl rfl) _ _) rfl
        (StoredWellformed.put_world entitiesRead ih.wellformed walk _)
  | crash _ accepted listed n ih =>
      exact ih.crash headersRead bodiesRead entitiesRead collisionFree accepted listed n

end Steps

end VeloChain.Chain
