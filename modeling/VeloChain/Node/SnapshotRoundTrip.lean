import VeloChain.Node.CrashConsistency
import VeloChain.Node.Lockstep
import VeloChain.Node.Running
import VeloChain.Node.Snapshot

/-! What an import makes of an export.
Blocks, number index, latest block number and game world arrive; accounts do not, since they are
not exported. So the imported node does as the exporting one exactly when there are none.
-/

namespace VeloChain

-----------------------------------------------------------------------------------------
-- Copied blocks
-----------------------------------------------------------------------------------------

namespace Database

variable {crypto : Crypto} {codecs : BlockCodecs} {db : Database}

/-- A number leads to a header of that number and its body. -/
structure LeadsTo (crypto : Crypto) (codecs : BlockCodecs) (db : Database) (number : UInt64)
    (block : SnapshotBlock) : Prop where
  numbered : block.header.number = number
  indexed : db.getBlockHashByNumber number = .ok (some (block.header.hash crypto))
  header : db.getHeader codecs (block.header.hash crypto) = .ok (some block.header)
  body : db.getBody codecs (block.header.hash crypto) = .ok (some block.body)

/-- Where every number leads to a block, an export collects these blocks. -/
theorem run_collectBlock {latestBlock : UInt64} {numbers : List UInt64}
    {blocks : List SnapshotBlock}
    (leads : List.Forall₂ (db.LeadsTo crypto codecs) numbers blocks)
    (progress : SnapshotProgress)
    : ∃ headHash headGameTick,
        Loop.run (db.collectBlock codecs latestBlock) numbers progress
        = (.ok (), { blocks := progress.blocks ++ blocks, headHash, headGameTick }) := by
  induction leads generalizing progress with
  | nil => exact ⟨progress.headHash, progress.headGameTick, by simp⟩
  | @cons number block numbers blocks first later ih =>
      have turn
          : ∃ headHash headGameTick,
              db.collectBlock codecs latestBlock number progress
              = (.ok (), { blocks := progress.blocks ++ [block], headHash, headGameTick }) := by
        simp only [collectBlock, first.indexed, first.header, first.body, Option.getD_some]
        split
        next => exact ⟨_, _, rfl⟩
        next => exact ⟨_, _, rfl⟩
      obtain ⟨headHash, headGameTick, collected⟩ := turn
      obtain ⟨headHash', headGameTick', rest⟩ :=
        ih { blocks := progress.blocks ++ [block], headHash, headGameTick }
      refine ⟨headHash', headGameTick', ?_⟩
      rw [Loop.run_cons_ok collected, rest, List.append_assoc, List.singleton_append]

/-- A stored block is led to. -/
theorem leadsTo_putBlock (headers : codecs.header.RoundTrips) (bodies : codecs.body.RoundTrips)
    (block : SnapshotBlock) (db : Database)
    : (db.putBlock crypto codecs (Block.new block.header block.body.transactions)).LeadsTo crypto
        codecs block.header.number block := by
  refine ⟨rfl, ?_, ?_, ?_⟩
  · rw [getBlockHashByNumber_putBlock]
    exact if_pos rfl
  · rw [getHeader_putBlock crypto (headers _)]
    exact if_pos rfl
  · rw [getBody_putBlock crypto (bodies _)]
    exact if_pos rfl

/-- Two blocks do not replace each other. -/
def Apart (crypto : Crypto) (left right : SnapshotBlock) : Prop :=
  left.header.number ≠ right.header.number
  ∧ left.header.hash crypto ≠ right.header.hash crypto

theorem LeadsTo.putBlock (headers : codecs.header.RoundTrips) (bodies : codecs.body.RoundTrips)
    {number : UInt64} {block other : SnapshotBlock} (leads : db.LeadsTo crypto codecs number block)
    (apart : Apart crypto block other)
    : (db.putBlock crypto codecs (Block.new other.header other.body.transactions)).LeadsTo crypto
        codecs number block := by
  obtain ⟨otherNumber, otherHash⟩ := apart
  refine ⟨leads.numbered, ?_, ?_, ?_⟩
  · rw [getBlockHashByNumber_putBlock, if_neg (leads.numbered ▸ otherNumber)]
    exact leads.indexed
  · rw [getHeader_putBlock crypto (headers _)]
    exact (if_neg otherHash).trans leads.header
  · rw [getBody_putBlock crypto (bodies _)]
    exact (if_neg otherHash).trans leads.body

/-- Blocks that do not replace each other are all led to when they have been stored, by
induction on the blocks.
-/
theorem leadsTo_foldl (headers : codecs.header.RoundTrips) (bodies : codecs.body.RoundTrips)
    {blocks : List SnapshotBlock} (apart : blocks.Pairwise (Apart crypto)) (db : Database)
    : ∀ block ∈ blocks,
        (blocks.foldl (fun (db : Database) (block : SnapshotBlock) =>
          db.putBlock crypto codecs (Block.new block.header block.body.transactions)) db).LeadsTo
            crypto codecs block.header.number block := by
  have kept (blocks : List SnapshotBlock) (db : Database) (block : SnapshotBlock)
      (leads : db.LeadsTo crypto codecs block.header.number block)
      (apart : ∀ other ∈ blocks, Apart crypto block other)
      : (blocks.foldl (fun (db : Database) (block : SnapshotBlock) =>
          db.putBlock crypto codecs (Block.new block.header block.body.transactions)) db).LeadsTo
            crypto codecs block.header.number block := by
    induction blocks generalizing db with
    | nil => exact leads
    | cons other rest ih =>
        obtain ⟨first, later⟩ := List.forall_mem_cons.mp apart
        exact ih _ (leads.putBlock headers bodies first) later
  induction blocks generalizing db with
  | nil => simp
  | cons first rest ih =>
      obtain ⟨fromFirst, apart⟩ := List.pairwise_cons.mp apart
      intro block member
      rcases List.mem_cons.mp member with rfl | later
      · exact kept rest _ block (leadsTo_putBlock headers bodies block db) fromFirst
      · exact ih apart _ block later

/-- Numbers that are led to do not depend on metadata and game state. -/
theorem LeadsTo.congr {db' : Database} {number : UInt64} {block : SnapshotBlock}
    (leads : db.LeadsTo crypto codecs number block)
    (same
      : ∀ cf, cf ≠ .metadata → cf ≠ .gameState → db'.contents cf = db.contents cf)
    : db'.LeadsTo crypto codecs number block := by
  refine ⟨leads.numbered, ?_, ?_, ?_⟩
  · rw [getBlockHashByNumber_congr (same _ (by decide) (by decide))]
    exact leads.indexed
  · rw [getHeader_congr (same _ (by decide) (by decide))]
    exact leads.header
  · rw [getBody_congr (same _ (by decide) (by decide))]
    exact leads.body

/-- Numbers up to the latest block are not cut off. -/
theorem toNat_of_mem_range {latestBlock : UInt64} {n : Nat}
    (member : n ∈ List.range (latestBlock.toNat + 1))
    : n ≤ latestBlock.toNat ∧ (UInt64.ofNat n).toNat = n := by
  have below := Nat.lt_succ_iff.mp (List.mem_range.mp member)
  exact ⟨below, UInt64.toNat_ofNat_of_lt' (Nat.lt_of_le_of_lt below latestBlock.toNat_lt)⟩

theorem mem_numbersUpTo {latestBlock number : UInt64}
    : number ∈ numbersUpTo latestBlock ↔ number ≤ latestBlock := by
  rw [numbersUpTo, List.mem_map, UInt64.le_iff_toNat_le]
  constructor
  · rintro ⟨n, member, rfl⟩
    obtain ⟨below, value⟩ := toNat_of_mem_range member
    rwa [value]
  · intro below
    exact ⟨number.toNat, List.mem_range.mpr (Nat.lt_succ_of_le below), UInt64.ofNat_toNat⟩

theorem nodup_numbersUpTo (latestBlock : UInt64) : (numbersUpTo latestBlock).Nodup := by
  refine List.Nodup.map_on ?_ List.nodup_range
  intro n member m member' same
  rw [← (toNat_of_mem_range member).2, same, (toNat_of_mem_range member').2]

/-- The last number up to the latest block is that block. -/
theorem getLast?_numbersUpTo (latestBlock : UInt64)
    : (numbersUpTo latestBlock).getLast? = some latestBlock := by
  rw [numbersUpTo, List.range_succ, List.map_append, List.map_singleton, List.getLast?_append,
    List.getLast?_singleton, Option.some_or, UInt64.ofNat_toNat]

end Database

variable {F : Type} [F32 F] {host : Host F}

/-- The formats read back the parts of a file, whose lengths fit their length fields. -/
structure SnapshotCodecs.Hold (codecs : SnapshotCodecs) (metadata : SnapshotMeta)
    (blocks : List SnapshotBlock) (gameState : Bytes) : Prop where
  metadataRead : codecs.metadata.RoundTripsAt metadata
  metadataFits : (codecs.metadata.encode metadata).length < 256 ^ 4
  blocksRead : codecs.blocks.RoundTripsAt blocks
  blocksFit : (codecs.blocks.encode blocks).length < 256 ^ 8
  gameStateFits : gameState.length < 256 ^ 8

/-- The file of the given parts. -/
def SnapshotCodecs.file (codecs : SnapshotCodecs) (metadata : SnapshotMeta)
    (blocks : List SnapshotBlock) (gameState : Bytes) : Bytes :=
  snapshotFile (codecs.metadata.encode metadata) (codecs.blocks.encode blocks) gameState

omit [F32 F] in
/-- Where every number up to the latest block leads to a block, an export succeeds with these
blocks.
-/
theorem exportSnapshot_of_leadsTo {db : Database} {latestBlock : UInt64}
    (latest : db.getLatestBlockNumber = .ok (some latestBlock)) {blocks : List SnapshotBlock}
    (leads
      : List.Forall₂ (db.LeadsTo host.crypto host.blocks) (Database.numbersUpTo latestBlock)
          blocks)
    (walk : EntityOrder F) (now : UInt64) (gameWorld : GameWorld F) (chainId : UInt64)
    : ∃ metadata, ∀ codecs,
        exportSnapshot host codecs walk now db gameWorld chainId
        = .ok (metadata, codecs.file metadata blocks (gameWorld.serializeState host.ecs walk)) := by
  obtain ⟨headHash, headGameTick, collected⟩ := @Database.run_collectBlock host.crypto host.blocks
    db latestBlock _ _ leads { blocks := [], headHash := "", headGameTick := 0 }
  refine
    ⟨{ version := snapshotVersion, chainId, blockNumber := latestBlock, blockHash := headHash
       gameTick := headGameTick, blockCount := UInt64.ofNat blocks.length, createdAt := now },
      fun codecs => ?_⟩
  unfold exportSnapshot
  simp only [latest, collected, List.nil_append]
  rfl

/-- The database after the import of the given parts into an empty one. -/
def importedDb (host : Host F) (blocks : List SnapshotBlock) (gameState : Bytes) : Database :=
  (Database.empty.putSnapshotBlocks host.crypto host.blocks blocks).putGameState
    "world".toUTF8.toList gameState

theorem WorldState.writeAccounts_empty (codec : Codec Account) (addresses : List Address)
    (db : Database)
    : WorldState.writeAccounts codec ∅ addresses db = db := by
  induction addresses generalizing db with
  | nil => rfl
  | cons address rest ih => exact ih db

/-- A file is imported, where its game state is read. -/
theorem importSnapshot_file {codecs : SnapshotCodecs} {metadata : SnapshotMeta}
    {blocks : List SnapshotBlock} {gameState : Bytes}
    (hold : codecs.Hold metadata blocks gameState) {ecs : EcsWorld F}
    (reads : host.ecs.decode gameState = .ok ecs) (order : IterationOrder Address Account)
    (seed : UInt64)
    : ∃ world state,
        importSnapshot host codecs order (codecs.file metadata blocks gameState) seed .new .empty
          = (.ok (metadata, world), state, importedDb host blocks gameState)
        ∧ world.ecs = ecs
        ∧ world.seed = seed := by
  have parts := readSnapshot_file hold.metadataRead hold.metadataFits hold.blocksRead
    hold.blocksFit hold.gameStateFits
  unfold importSnapshot SnapshotCodecs.file
  simp only [parts, WorldState.commit, WorldState.new, GameWorld.fromState, reads,
    WorldState.writeAccounts_empty]
  exact ⟨_, _, rfl, rfl, rfl⟩

theorem forall₂_getLast? {α β : Type} {related : α → β → Prop} {left : List α} {right : List β}
    (all : List.Forall₂ related left right) {last : α} (isLast : left.getLast? = some last)
    : ∃ last', right.getLast? = some last' ∧ related last last' := by
  induction all with
  | nil => simp at isLast
  | @cons first first' left right here later ih =>
      cases later with
      | nil =>
          obtain rfl := Option.some.inj isLast
          exact ⟨first', rfl, here⟩
      | cons next rest =>
          rw [List.getLast?_cons_cons] at isLast ⊢
          exact ih isLast

theorem exists_of_forall₂ {α β : Type} {related : α → β → Prop} {left : List α} {right : List β}
    (all : List.Forall₂ related left right) {x : α} (member : x ∈ left)
    : ∃ y, related x y := by
  induction all with
  | nil => cases member
  | @cons first first' left right here later ih =>
      rcases List.mem_cons.mp member with rfl | member
      · exact ⟨first', here⟩
      · exact ih member

section Imported

variable {db : Database} {latestBlock : UInt64} {blocks : List SnapshotBlock}
  (headers : host.blocks.header.RoundTrips) (bodies : host.blocks.body.RoundTrips)
  (leads
    : List.Forall₂ (db.LeadsTo host.crypto host.blocks) (Database.numbersUpTo latestBlock) blocks)

omit [F32 F] in
include leads in
/-- The latest block number arrives. -/
theorem getLatestBlockNumber_importedDb (gameState : Bytes)
    : (importedDb host blocks gameState).getLatestBlockNumber = .ok (some latestBlock) := by
  obtain ⟨last, isLast, leadsLast⟩ :=
    forall₂_getLast? leads (Database.getLast?_numbersUpTo latestBlock)
  rw [importedDb, Database.putGameState,
    Database.getLatestBlockNumber_congr (Database.contents_putCf_of_ne (by decide) _ _)]
  simp only [Database.putSnapshotBlocks, isLast, leadsLast.numbered]
  exact Database.getLatestBlockNumber_put _ _

omit [F32 F] in
include headers bodies leads in
/-- Every block arrives, with its number. -/
theorem leadsTo_importedDb {known : Set BlockHeader}
    (collisionFree : Set.InjOn (BlockHeader.hash host.crypto) known)
    (listed : ∀ block ∈ blocks, block.header ∈ known) (gameState : Bytes)
    : List.Forall₂ ((importedDb host blocks gameState).LeadsTo host.crypto host.blocks)
        (Database.numbersUpTo latestBlock) blocks := by
  have numbers
      : blocks.map (fun block => block.header.number) = Database.numbersUpTo latestBlock := by
    rw [← List.forall₂_eq_eq_eq, List.forall₂_map_left_iff]
    exact leads.flip.imp fun _ _ leadsTo => leadsTo.numbered
  have distinct := Database.nodup_numbersUpTo latestBlock
  rw [← numbers, List.Nodup, List.pairwise_map] at distinct
  have apart : blocks.Pairwise (Database.Apart host.crypto) := by
    apply distinct.imp_of_mem
    intro left right memberLeft memberRight other
    refine ⟨other, fun sameHash => other ?_⟩
    rw [collisionFree (listed left memberLeft) (listed right memberRight) sameHash]
  have stored := @Database.leadsTo_foldl host.crypto host.blocks headers bodies blocks apart
    .empty
  have imported
      : ∀ block ∈ blocks,
          (importedDb host blocks gameState).LeadsTo host.crypto host.blocks block.header.number
            block := by
    intro block member
    apply (stored block member).congr
    intro cf noMetadata noGameState
    rw [importedDb, Database.putGameState, Database.contents_putCf_of_ne noGameState,
      Database.putSnapshotBlocks]
    split
    next => exact Database.contents_putLatestBlockNumber noMetadata _ _
    next => rfl
  rw [← numbers, List.forall₂_map_left_iff]
  exact List.forall₂_same.mpr imported

end Imported

-----------------------------------------------------------------------------------------
-- Export and import of a running node
-----------------------------------------------------------------------------------------

namespace Chain

/-- The database has the blocks up to the latest one, the game world and the accounts of the
exporting node. A node that starts on it does with any further blocks what the exporting node
does once it is started again.
-/
structure Reproduces (host : Host F) (walk : EntityOrder F) (chain : Chain F) (db : Database)
    : Prop where
  latest : db.getLatestBlockNumber = chain.db.getLatestBlockNumber
  numbers
    : ∀ latest, chain.db.getLatestBlockNumber = .ok (some latest) → ∀ number ≤ latest,
        db.getBlockHashByNumber number = chain.db.getBlockHashByNumber number
  blocks
    : ∀ latest, chain.db.getLatestBlockNumber = .ok (some latest) → ∀ number ≤ latest,
        { chain with db }.getBlockByNumber host number = chain.getBlockByNumber host number
  gameState
    : ∃ data,
        db.getGameState "world".toUTF8.toList = some data
        ∧ host.ecs.decode data = .ok chain.gameWorld.ecs
  accounts
    : WorldState.committedView host.account db
      = WorldState.committedView host.account chain.db
  executes
    : ∀ blocks,
        List.Forall₂ (SameOutcome host)
          (imports host (onLeft blocks)
            ({ chain with
                db :=
                  chain.db.putGameState "world".toUTF8.toList
                    (chain.gameWorld.serializeState host.ecs walk) }.restart host))
          (imports host (onRight blocks) ({ chain with db }.restart host))

/-- The exporting node stores no account. -/
def StoresNoAccount (db : Database) : Prop :=
  ∀ address, db.getGameState (addressSlice address) = none

/-- An export, imported into an empty database, reproduces what was exported. -/
def SnapshotRoundTrip (host : Host F) (codecs : SnapshotCodecs) (walk : EntityOrder F)
    (now : UInt64) (order : IterationOrder Address Account) (chain : Chain F) : Prop :=
  ∃ metadata file world state db,
    exportSnapshot host codecs walk now chain.db chain.gameWorld chain.chainId
      = .ok (metadata, file)
    ∧ importSnapshot host codecs order file chain.gameWorld.seed .new .empty
      = (.ok (metadata, world), state, db)
    ∧ world.ecs = chain.gameWorld.ecs
    ∧ chain.Reproduces host walk db

variable {headers : Set BlockHeader} {chain : Chain F} {head : BlockHeader}

omit [F32 F] in
/-- In an indexed database every number up to the head leads to a block. -/
theorem Indexed.exists_leadsTo (indexed : Indexed host headers chain head)
    : ∃ blocks,
        List.Forall₂ (chain.db.LeadsTo host.crypto host.blocks)
          (Database.numbersUpTo head.number) blocks
        ∧ ∀ block ∈ blocks, block.header ∈ headers := by
  have each
      : ∀ number ≤ head.number, ∃ block : SnapshotBlock,
          chain.db.LeadsTo host.crypto host.blocks number block ∧ block.header ∈ headers := by
    intro number reached
    obtain ⟨ancestor, above, height, entry, header, body, stored⟩ :=
      indexed.canonical.indexed number.toNat (UInt64.le_iff_toNat_le.mp reached)
    rw [indexEntry, UInt64.ofNat_toNat] at entry
    exact ⟨{ header := ancestor, body }, ⟨UInt64.toNat_inj.mp height, entry, header, stored⟩,
      above.member_older⟩
  have : Nonempty SnapshotBlock := ⟨{ header := head, body := { transactions := [] } }⟩
  choose! block leads member using each
  refine ⟨(Database.numbersUpTo head.number).map block, ?_, ?_⟩
  · rw [List.forall₂_map_right_iff, List.forall₂_same]
    exact fun number listed => leads number (Database.mem_numbersUpTo.mp listed)
  · simp only [List.mem_map]
    rintro _ ⟨number, listed, rfl⟩
    exact member number (Database.mem_numbersUpTo.mp listed)

/-- Nodes that start with the same configuration on databases with the same accounts, game world
and head are the same.
-/
theorem SameNode.restart {db db' : Database}
    (accounts
      : WorldState.committedView host.account db = WorldState.committedView host.account db')
    (readable : (WorldState.committedView host.account db).Readable)
    (gameWorld
      : restoredWorld host db chain.gameWorld.seed = restoredWorld host db' chain.gameWorld.seed)
    (wellformed : (restoredWorld host db chain.gameWorld.seed).ecs.Wellformed)
    (head : storedHead host db = storedHead host db')
    : SameNode host ({ chain with db }.restart host) ({ chain with db := db' }.restart host) := by
  have sameAccounts := (recovered_accounts chain db).trans
    (accounts.trans (recovered_accounts chain db').symm)
  have sameWorld := (recovered_gameWorld chain db).trans
    (gameWorld.trans (@recovered_gameWorld F host _ chain db').symm)
  have sameHead := (recovered_head chain db).trans
    (head.trans (@recovered_head F host _ chain db').symm)
  have started := @recovered_gameWorld F host _ chain db
  have readable' := accounts ▸ readable
  rw [← started] at wellformed
  obtain ⟨found, frame⟩ := @restart_frame F _ host { chain with db }
  obtain ⟨found', frame'⟩ := @restart_frame F _ host { chain with db := db' }
  simp only [recovered] at sameAccounts sameWorld sameHead wellformed
  rw [frame] at sameAccounts sameWorld sameHead wellformed ⊢
  rw [frame'] at sameAccounts sameWorld sameHead ⊢
  exact
    { accounts := sameAccounts
      gameWorld := sameWorld
      chainId := rfl
      readable := ⟨readable, readable'⟩
      wellformed
      head := sameHead
      consensus := rfl }

omit [F32 F] in
theorem storesNoAccount_iff {db : Database} {codec : Codec Account}
    : StoresNoAccount db ↔ WorldState.committedView codec db = fun _ => .ok none := by
  unfold StoresNoAccount
  constructor
  · intro none
    funext address
    simp only [WorldState.committedView, none address]
  · intro view address
    have read := congrFun view address
    unfold WorldState.committedView at read
    split at read
    next found => exact found
    next =>
      split at read
      next => cases read
      next => cases read

omit [F32 F] in
/-- Storing blocks writes no game state. -/
theorem contents_putSnapshotBlocks (blocks : List SnapshotBlock) (db : Database)
    : (db.putSnapshotBlocks host.crypto host.blocks blocks).contents .gameState
      = db.contents .gameState := by
  have stored
      : (blocks.foldl (fun (db : Database) (block : SnapshotBlock) =>
          db.putBlock host.crypto host.blocks
            (Block.new block.header block.body.transactions)) db).contents .gameState
        = db.contents .gameState := by
    induction blocks generalizing db with
    | nil => rfl
    | cons block rest ih =>
        rw [List.foldl_cons, ih]
        exact Database.contents_putBlock_of_ne (by decide) (by decide) (by decide) (by decide)
  unfold Database.putSnapshotBlocks
  split
  next => exact (Database.contents_putLatestBlockNumber (by decide) _ _).trans stored
  next => exact stored

omit [F32 F] in
/-- The game world is all the game state that arrives. -/
theorem getGameState_importedDb (blocks : List SnapshotBlock) (gameState key : Bytes)
    : (importedDb host blocks gameState).getGameState key
      = if key = "world".toUTF8.toList then some gameState else none := by
  simp only [importedDb, Database.getGameState, Database.getCf, Database.putGameState,
    Database.contents_putCf, contents_putSnapshotBlocks, true_and]
  rfl

section Reproduction

variable {latest : UInt64} {blocks : List SnapshotBlock}

omit [F32 F] in
/-- The last of the blocks that are led to is the head. -/
theorem exists_headStored {db : Database}
    (stored : db.getLatestBlockNumber = .ok (some latest))
    (leads
      : List.Forall₂ (db.LeadsTo host.crypto host.blocks) (Database.numbersUpTo latest) blocks)
    : ∃ last, blocks.getLast? = some last ∧ HeadStored host db last.header latest := by
  obtain ⟨last, isLast, leads⟩ := forall₂_getLast? leads (Database.getLast?_numbersUpTo latest)
  exact ⟨last, isLast, stored, leads.indexed, leads.header⟩

omit [F32 F] in
/-- Two databases that lead to the same block answer alike. -/
theorem getBlockByNumber_of_leadsTo {db : Database} {number : UInt64} {block : SnapshotBlock}
    (leads : db.LeadsTo host.crypto host.blocks number block)
    : { chain with db }.getBlockByNumber host number
      = .ok (some { header := block.header, body := block.body }) := by
  simp only [Chain.getBlockByNumber, getBlockByHash, leads.indexed, leads.header, leads.body]

omit [F32 F] in
/-- No account arrives. -/
theorem committedView_importedDb (blocks : List SnapshotBlock) (gameState : Bytes)
    : WorldState.committedView host.account (importedDb host blocks gameState)
      = fun _ => .ok none := by
  refine storesNoAccount_iff.mp (fun address => ?_)
  rw [getGameState_importedDb, if_neg (addressSlice_ne_world address)]

/-- Without accounts, the exporting node and the imported one start the same. -/
theorem sameNode_importedDb (entitiesRead : host.ecs.RoundTrips)
    (wellformed : chain.gameWorld.ecs.Wellformed)
    (stored : chain.db.getLatestBlockNumber = .ok (some latest))
    (leads
      : List.Forall₂ (chain.db.LeadsTo host.crypto host.blocks) (Database.numbersUpTo latest)
          blocks)
    (walk : EntityOrder F)
    (arrived
      : List.Forall₂
          ((importedDb host blocks (chain.gameWorld.serializeState host.ecs walk)).LeadsTo
            host.crypto host.blocks)
          (Database.numbersUpTo latest) blocks)
    (empty : StoresNoAccount chain.db)
    : SameNode host
        ({ chain with
            db :=
              chain.db.putGameState "world".toUTF8.toList
                (chain.gameWorld.serializeState host.ecs walk) }.restart host)
        ({ chain with
            db :=
              importedDb host blocks (chain.gameWorld.serializeState host.ecs walk) }.restart
          host) := by
  have read
      : host.ecs.decode (chain.gameWorld.serializeState host.ecs walk)
        = .ok chain.gameWorld.ecs :=
    entitiesRead chain.gameWorld.ecs walk
  have left
      : (chain.db.putGameState "world".toUTF8.toList
            (chain.gameWorld.serializeState host.ecs walk)).getGameState "world".toUTF8.toList
        = some (chain.gameWorld.serializeState host.ecs walk) := by
    simp only [Database.getGameState, Database.putGameState, Database.getCf,
      Database.contents_putCf, and_self, if_true]
  have right := (@getGameState_importedDb F host blocks
    (chain.gameWorld.serializeState host.ecs walk) "world".toUTF8.toList).trans (if_pos rfl)
  have none
      : WorldState.committedView host.account
          (chain.db.putGameState "world".toUTF8.toList
            (chain.gameWorld.serializeState host.ecs walk))
        = fun _ => .ok Option.none :=
    (committedView_putWorld host _ _).trans (storesNoAccount_iff.mp empty)
  have kept (cf : ColumnFamily) (other : cf ≠ .gameState)
      : (chain.db.putGameState "world".toUTF8.toList
          (chain.gameWorld.serializeState host.ecs walk)).contents cf = chain.db.contents cf :=
    Database.contents_putCf_of_ne other _ _
  have stored' := (Database.getLatestBlockNumber_congr (kept _ (by decide))).trans stored
  obtain ⟨last, isLast, headStored⟩ := exists_headStored stored'
    (leads.imp (fun _ _ leads => leads.congr (fun cf _ other => kept cf other)))
  obtain ⟨last', isLast', headArrived⟩ := exists_headStored
    (getLatestBlockNumber_importedDb leads _) arrived
  obtain rfl := Option.some.inj (isLast.symm.trans isLast')
  refine SameNode.restart (none.trans (committedView_importedDb _ _).symm) ?_ ?_ ?_ ?_
  · rw [none]
    exact fun _ => ⟨_, rfl⟩
  · rw [restoredWorld_of_decode left read, restoredWorld_of_decode right read]
  · rw [restoredWorld_of_decode left read]
    exact wellformed
  · rw [headStored.storedHead, headArrived.storedHead]

/-- Where the database is indexed, all but the accounts arrives. -/
theorem reproduces_iff (headersRead : host.blocks.header.RoundTrips)
    (bodiesRead : host.blocks.body.RoundTrips) (accountsRead : host.account.RoundTrips)
    (entitiesRead : host.ecs.RoundTrips)
    (collisionFree : Set.InjOn (BlockHeader.hash host.crypto) headers)
    (wellformed : chain.gameWorld.ecs.Wellformed)
    (stored : chain.db.getLatestBlockNumber = .ok (some latest))
    (leads
      : List.Forall₂ (chain.db.LeadsTo host.crypto host.blocks) (Database.numbersUpTo latest)
          blocks)
    (listed : ∀ block ∈ blocks, block.header ∈ headers) (walk : EntityOrder F)
    : chain.Reproduces host walk
        (importedDb host blocks (chain.gameWorld.serializeState host.ecs walk))
      ↔ StoresNoAccount chain.db := by
  have arrived := leadsTo_importedDb headersRead bodiesRead leads collisionFree listed
    (chain.gameWorld.serializeState host.ecs walk)
  have noAccount := @committedView_importedDb F host blocks
    (chain.gameWorld.serializeState host.ecs walk)
  have both
      : ∀ number ≤ latest, ∃ block,
          chain.db.LeadsTo host.crypto host.blocks number block
          ∧ (importedDb host blocks (chain.gameWorld.serializeState host.ecs walk)).LeadsTo
              host.crypto host.blocks number block := by
    intro number reached
    exact exists_of_forall₂ (List.Forall₂.mp (fun _ _ => And.intro) leads arrived)
      (Database.mem_numbersUpTo.mpr reached)
  constructor
  · intro reproduced
    exact storesNoAccount_iff.mpr (reproduced.accounts.symm.trans noAccount)
  · intro empty
    refine
      { latest := (getLatestBlockNumber_importedDb leads _).trans stored.symm
        numbers := ?_
        blocks := ?_
        gameState := ⟨_, (getGameState_importedDb _ _ _).trans (if_pos rfl),
          entitiesRead chain.gameWorld.ecs walk⟩
        accounts := noAccount.trans (storesNoAccount_iff.mp empty).symm
        executes := fun offered =>
          (sameNode_importedDb entitiesRead wellformed stored leads walk arrived empty).imports
            accountsRead offered }
    · intro other isLatest number reached
      obtain rfl : latest = other :=
        Option.some.inj (Except.ok.inj (stored.symm.trans isLatest))
      obtain ⟨block, leads, arrived⟩ := both number reached
      rw [leads.indexed, arrived.indexed]
    · intro other isLatest number reached
      obtain rfl : latest = other :=
        Option.some.inj (Except.ok.inj (stored.symm.trans isLatest))
      obtain ⟨block, leads, arrived⟩ := both number reached
      exact (getBlockByNumber_of_leadsTo arrived).trans (getBlockByNumber_of_leadsTo leads).symm

end Reproduction

/-- What an import makes of an export is known, so a round trip is a question about it. -/
theorem snapshotRoundTrip_iff_reproduces (entitiesRead : host.ecs.RoundTrips)
    {codecs : SnapshotCodecs} {walk : EntityOrder F} {now : UInt64} {metadata : SnapshotMeta}
    {blocks : List SnapshotBlock}
    (exported
      : exportSnapshot host codecs walk now chain.db chain.gameWorld chain.chainId
        = .ok
          (metadata,
            codecs.file metadata blocks (chain.gameWorld.serializeState host.ecs walk)))
    (hold : codecs.Hold metadata blocks (chain.gameWorld.serializeState host.ecs walk))
    (order : IterationOrder Address Account)
    : chain.SnapshotRoundTrip host codecs walk now order
      ↔ chain.Reproduces host walk
          (importedDb host blocks (chain.gameWorld.serializeState host.ecs walk)) := by
  obtain ⟨world, state, imported, sameEcs, _⟩ :=
    importSnapshot_file hold (entitiesRead chain.gameWorld.ecs walk) order chain.gameWorld.seed
  constructor
  · rintro ⟨metadata', file, world', state', db, exported', imported', _, reproduced⟩
    obtain ⟨rfl, rfl⟩ := Prod.mk.inj (Except.ok.inj (exported.symm.trans exported'))
    obtain ⟨_, rfl, rfl⟩ := imported.symm.trans imported'
    exact reproduced
  · intro reproduced
    exact ⟨metadata, _, world, state, _, exported, imported, sameEcs, reproduced⟩

section Running

variable (headersRead : host.blocks.header.RoundTrips)
  (bodiesRead : host.blocks.body.RoundTrips) (accountsRead : host.account.RoundTrips)
  (entitiesRead : host.ecs.RoundTrips) {known : Set BlockHeader}
  (collisionFree : Set.InjOn (BlockHeader.hash host.crypto) known)
  (running : Running host known chain) (walk : EntityOrder F) (now : UInt64)

include headersRead bodiesRead accountsRead entitiesRead collisionFree running

/-- A running node can be exported, with all blocks up to its head. -/
theorem Running.exists_export
    : ∃ metadata blocks,
        (∀ codecs,
          exportSnapshot host codecs walk now chain.db chain.gameWorld chain.chainId
          = .ok
            (metadata,
              codecs.file metadata blocks (chain.gameWorld.serializeState host.ecs walk)))
        ∧ (chain.Reproduces host walk
            (importedDb host blocks (chain.gameWorld.serializeState host.ecs walk))
          ↔ StoresNoAccount chain.db) := by
  have kept := running.kept headersRead bodiesRead entitiesRead collisionFree
  obtain ⟨head, indexed⟩ := kept.indexed
  obtain ⟨blocks, leads, listed⟩ := indexed.exists_leadsTo
  obtain ⟨metadata, exported⟩ :=
    exportSnapshot_of_leadsTo indexed.latest leads walk now chain.gameWorld chain.chainId
  exact ⟨metadata, blocks, exported,
    reproduces_iff headersRead bodiesRead accountsRead entitiesRead
      (collisionFree.mono (fun _ (member : _ ∈ aged known) => member.1)) kept.wellformed
      indexed.latest leads listed walk⟩

/-- For every running node an export succeeds, and its import gives everything back exactly when
the node stores no account.
-/
theorem snapshotRoundTrip_iff (order : IterationOrder Address Account)
    : ∃ metadata blocks, ∀ codecs,
        exportSnapshot host codecs walk now chain.db chain.gameWorld chain.chainId
          = .ok
            (metadata,
              codecs.file metadata blocks (chain.gameWorld.serializeState host.ecs walk))
        ∧ (codecs.Hold metadata blocks (chain.gameWorld.serializeState host.ecs walk)
          → (chain.SnapshotRoundTrip host codecs walk now order
            ↔ StoresNoAccount chain.db)) := by
  obtain ⟨metadata, blocks, exported, reproduces⟩ := running.exists_export headersRead bodiesRead
    accountsRead entitiesRead collisionFree walk now
  refine ⟨metadata, blocks, fun codecs => ⟨exported codecs, fun hold => ?_⟩⟩
  exact (snapshotRoundTrip_iff_reproduces entitiesRead (exported codecs) hold order).trans
    reproduces

end Running

section Genesis

/-- The world of a node that has just been initialized. -/
def startingWorld : GameWorld Milli := .new Host.lossless.crypto.keccak256 0

/-- What a codec gets of a world. -/
def walkedEntities (world : GameWorld Milli)
    : EntityId × List (EntityId × List (Component Milli)) :=
  (world.ecs.nextEntityId,
    ((BlockOrder.ascending Milli).persist.keys world.ecs.entities).map
      (fun id => (id, (world.ecs.getComponents id).getD [])))

/-- The world that a format shortens takes no byte. -/
theorem serializeState_shortened (world : GameWorld Milli) (codec : EcsCodec Milli)
    : world.serializeState (codec.shortened (walkedEntities world))
        (BlockOrder.ascending Milli).persist
      = [] :=
  if_pos rfl

/-- A lossless host that stores this world in no byte. -/
def startingHost : Host Milli :=
  { Host.lossless with
    blocks := { Host.lossless.blocks with body := .enumerated }
    ecs := Host.lossless.ecs.shortened (walkedEntities startingWorld) }

theorem startingHost_headers : startingHost.blocks.header.RoundTrips := Host.lossless_headers

theorem startingHost_bodies : startingHost.blocks.body.RoundTrips :=
  @Codec.enumerated_roundTrips BlockBody _

theorem startingHost_accounts : startingHost.account.RoundTrips := Host.lossless_accounts

theorem startingHost_entities : startingHost.ecs.RoundTrips :=
  EcsCodec.shortened_roundTrips Host.lossless_entities _

/-- A node that has just been initialized with the given accounts. -/
def startedChain (alloc : List (Address × U256)) : Chain Milli :=
  initialized startingHost (.newReadonly [7] { period := 1 }) 1 0 alloc
    (BlockOrder.ascending Milli).dirtyAccounts (BlockOrder.ascending Milli).persist

/-- The header of its genesis block. -/
def startedHeaders (alloc : List (Address × U256)) : Set BlockHeader :=
  { header | (startedChain alloc).head = some header }

theorem collisionFree_startedHeaders (alloc : List (Address × U256))
    : Set.InjOn (BlockHeader.hash startingHost.crypto) (startedHeaders alloc) :=
  fun _ left _ right _ => Option.some.inj (Eq.trans (Eq.symm left) right)

theorem running_startedChain (alloc : List (Address × U256))
    : Running startingHost (startedHeaders alloc) (startedChain alloc) :=
  .init (.newReadonly [7] { period := 1 }) 1 0 alloc (BlockOrder.ascending Milli).dirtyAccounts
    (BlockOrder.ascending Milli).persist (fun _ isHead => isHead)

theorem serializeState_startedChain (alloc : List (Address × U256))
    : (startedChain alloc).gameWorld.serializeState startingHost.ecs
        (BlockOrder.ascending Milli).persist
      = [] :=
  serializeState_shortened startingWorld Host.lossless.ecs

/-- Formats that store the given metadata and blocks in a byte each. -/
def tableCodecs (metadata : SnapshotMeta) (blocks : List SnapshotBlock) : SnapshotCodecs :=
  { metadata := .ofTable [metadata], blocks := .ofTable [blocks] }

theorem hold_tableCodecs (metadata : SnapshotMeta) (blocks : List SnapshotBlock)
    {gameState : Bytes} (small : gameState.length < 256 ^ 8)
    : (tableCodecs metadata blocks).Hold metadata blocks gameState := by
  refine ⟨?_, Nat.one_lt_pow (by decide) (by decide), ?_,
    Nat.one_lt_pow (by decide) (by decide), small⟩
  · simp [Codec.RoundTripsAt, tableCodecs, Codec.ofTable]
  · simp [Codec.RoundTripsAt, tableCodecs, Codec.ofTable]

/-- One account that is allocated at genesis is stored. -/
theorem not_storesNoAccount_startedChain : ¬ StoresNoAccount (startedChain [(5, 1)]).db := by
  intro empty
  have stored : ((startedChain [(5, 1)]).db.getGameState (addressSlice 5)).isSome := by
    decide +kernel
  rw [empty 5] at stored
  cases stored

/-- An account that is allocated at genesis does not arrive, although the export succeeds and the
formats read the whole file back.
-/
theorem snapshotRoundTrip_fails
    : Running startingHost (startedHeaders [(5, 1)]) (startedChain [(5, 1)])
      ∧ ∃ metadata blocks codecs,
          exportSnapshot startingHost codecs (BlockOrder.ascending Milli).persist 0
              (startedChain [(5, 1)]).db (startedChain [(5, 1)]).gameWorld
              (startedChain [(5, 1)]).chainId
            = .ok (metadata, codecs.file metadata blocks [])
          ∧ codecs.Hold metadata blocks []
          ∧ ¬ (startedChain [(5, 1)]).SnapshotRoundTrip startingHost codecs
              (BlockOrder.ascending Milli).persist 0
              (BlockOrder.ascending Milli).dirtyAccounts := by
  have running := running_startedChain [(5, 1)]
  obtain ⟨metadata, blocks, exported, reproduces⟩ := running.exists_export startingHost_headers
    startingHost_bodies startingHost_accounts startingHost_entities
    (collisionFree_startedHeaders _) (BlockOrder.ascending Milli).persist 0
  have hold
      : (tableCodecs metadata blocks).Hold metadata blocks
          ((startedChain [(5, 1)]).gameWorld.serializeState startingHost.ecs
            (BlockOrder.ascending Milli).persist) := by
    rw [serializeState_startedChain]
    exact hold_tableCodecs metadata blocks (Nat.pow_pos (by decide))
  have lost
      : ¬ (startedChain [(5, 1)]).SnapshotRoundTrip startingHost (tableCodecs metadata blocks)
          (BlockOrder.ascending Milli).persist 0
          (BlockOrder.ascending Milli).dirtyAccounts := by
    intro roundTrip
    exact not_storesNoAccount_startedChain (reproduces.mp
      ((snapshotRoundTrip_iff_reproduces startingHost_entities (exported _) hold _).mp
        roundTrip))
  rw [serializeState_startedChain] at exported hold
  exact ⟨running, metadata, blocks, tableCodecs metadata blocks, exported _, hold, lost⟩

end Genesis

section FirstImport

/-- The format of a world has a part in the root of a tick only. -/
theorem world_tick_codec (crypto : Crypto) (codec codec' : EcsCodec Milli)
    (order : TickOrder Milli) (world : GameWorld Milli)
    : (world.tick crypto codec order []).2 = (world.tick crypto codec' order []).2 :=
  rfl

/-- The world after a tick without actions. -/
def firstTickWorld : GameWorld Milli :=
  (startingWorld.tick startingHost.crypto startingHost.ecs (BlockOrder.ascending Milli).tick []).2

/-- A lossless host that stores this world in no byte, and the one before in at most one. -/
def tickingHost : Host Milli :=
  { startingHost with ecs := startingHost.ecs.shortened (walkedEntities firstTickWorld) }

theorem tickingHost_headers : tickingHost.blocks.header.RoundTrips := startingHost_headers

theorem tickingHost_bodies : tickingHost.blocks.body.RoundTrips := startingHost_bodies

theorem tickingHost_accounts : tickingHost.account.RoundTrips := startingHost_accounts

theorem tickingHost_entities : tickingHost.ecs.RoundTrips :=
  EcsCodec.shortened_roundTrips startingHost_entities _

/-- A node of this host that has just been initialized, without accounts. -/
def tickingChain : Chain Milli :=
  initialized tickingHost (.newReadonly [7] { period := 1 }) 1 0 []
    (BlockOrder.ascending Milli).dirtyAccounts (BlockOrder.ascending Milli).persist

/-- The node after the import of a block. -/
def importedChain : Chain Milli :=
  tickingChain.step tickingHost (.importBlock firstBlock (.ascending Milli))

/-- The headers of its chain. -/
def importedHeaders : List BlockHeader := [.genesis 0, firstBlock.header]

/-- The first world is stored in at most one byte, so its root is zero. -/
theorem stateHash_startingWorld
    : startingWorld.ecs.stateHash tickingHost.crypto.keccak256 tickingHost.ecs
        (BlockOrder.ascending Milli).persist
      = 0 := by
  have inner
      : startingWorld.serializeState startingHost.ecs (BlockOrder.ascending Milli).persist = [] :=
    serializeState_shortened startingWorld Host.lossless.ecs
  have encoded
      : startingWorld.serializeState tickingHost.ecs (BlockOrder.ascending Milli).persist
        = if walkedEntities startingWorld = walkedEntities firstTickWorld then []
          else 0 :: startingWorld.serializeState startingHost.ecs
            (BlockOrder.ascending Milli).persist :=
    rfl
  rw [inner] at encoded
  change hashFromSlice (startingWorld.serializeState tickingHost.ecs _) = 0
  rw [encoded]
  split <;> rfl

theorem head_tickingChain : tickingChain.head = some (.genesis 0) :=
  congrArg (fun root => some (BlockHeader.genesis root)) stateHash_startingWorld

theorem exists_accepted_firstBlock
    : ∃ accepted : Accepted tickingHost (.ascending Milli) firstBlock tickingChain,
        importedChain = accepted.result := by
  have accepts
      : ∃ next, tickingChain.applyBlock tickingHost (.ascending Milli) firstBlock
          = (.ok (), next) := by
    refine applyBlock_accepts_iff.mpr ⟨⟨_, head_tickingChain, ?_⟩, ?_, trivial⟩
    · exact PoaConsensus.verifyBlock_of_followsParent ⟨rfl, rfl, by decide, rfl, rfl⟩ rfl
    · intro tx member
      cases member
  obtain ⟨next, applied⟩ := accepts
  obtain ⟨accepted, isNext⟩ := applyBlock_ok_iff.mp applied
  exact ⟨accepted, (congrArg Prod.snd applied).trans isNext⟩

/-- The block is the new head. -/
theorem head_importedChain : importedChain.head = some firstBlock.header := by
  obtain ⟨accepted, result⟩ := exists_accepted_firstBlock
  rw [result]
  rfl

theorem collisionFree_importedHeaders
    : Set.InjOn (BlockHeader.hash tickingHost.crypto) { header | header ∈ importedHeaders } := by
  have apart
      : ∀ header ∈ importedHeaders, ∀ other ∈ importedHeaders,
          header.hash tickingHost.crypto = other.hash tickingHost.crypto → header = other := by
    decide +kernel
  exact apart

theorem running_importedChain
    : Running tickingHost { header | header ∈ importedHeaders } importedChain := by
  refine .step (.init _ _ _ _ _ _ fun genesis isHead => ?_) _ fun block takes => ?_
  · obtain rfl := Option.some.inj (isHead.symm.trans head_tickingChain)
    exact List.mem_cons_self
  · obtain rfl : firstBlock = block := takes
    exact List.mem_cons_of_mem _ List.mem_cons_self

/-- The world of the node takes no byte. -/
theorem serializeState_importedChain
    : importedChain.gameWorld.serializeState tickingHost.ecs (BlockOrder.ascending Milli).persist
      = [] := by
  obtain ⟨accepted, result⟩ := exists_accepted_firstBlock
  have world : importedChain.gameWorld = firstTickWorld := by
    rw [result]
    exact (accepted.world_of_empty rfl).trans
      (world_tick_codec tickingHost.crypto tickingHost.ecs startingHost.ecs _ startingWorld)
  rw [world]
  exact serializeState_shortened firstTickWorld startingHost.ecs

/-- Without allocated accounts none is stored. -/
theorem storesNoAccount_tickingChain : StoresNoAccount tickingChain.db := by
  intro address
  refine (Database.getGameState_congr ((Database.contents_putLatestBlockNumber (by decide)
    _ _).trans (Database.contents_putBlock_of_ne (by decide) (by decide) (by decide)
      (by decide))) _).trans ?_
  exact congrArg (fun (db : Database) => db.getGameState (addressSlice address))
    (WorldState.writeAccounts_empty tickingHost.account _ .empty)

/-- A block without transactions stores none either. -/
theorem storesNoAccount_importedChain : StoresNoAccount importedChain.db := by
  obtain ⟨accepted, result⟩ := exists_accepted_firstBlock
  have before
      : WorldState.committedView tickingHost.account tickingChain.db = fun _ => .ok none :=
    storesNoAccount_iff.mp storesNoAccount_tickingChain
  have clean : accepted.processed.state.dirtyAccounts = ∅ := by
    rw [(accepted.processed_of_empty rfl).1]
    rfl
  have committed
      := WorldState.committedView_congr tickingHost.account
        (contents_finalize_gameState tickingHost (.ascending Milli) firstBlock
          accepted.processed accepted.world tickingChain)
  apply (@storesNoAccount_iff _ tickingHost.account).mpr
  rw [result]
  refine committed.trans (funext fun address => ?_)
  rw [WorldState.committedView_commit _ tickingHost_accounts, clean, Finmap.lookup_empty,
    committedView_worldStored, before]

theorem snapshotRoundTrip_iff_importedChain
    : importedChain.head = some firstBlock.header
      ∧ ∃ codecs,
          importedChain.SnapshotRoundTrip tickingHost codecs
            (BlockOrder.ascending Milli).persist 0 (BlockOrder.ascending Milli).dirtyAccounts := by
  obtain ⟨metadata, blocks, whole⟩ := snapshotRoundTrip_iff tickingHost_headers
    tickingHost_bodies tickingHost_accounts tickingHost_entities collisionFree_importedHeaders
    running_importedChain (BlockOrder.ascending Milli).persist 0
    (BlockOrder.ascending Milli).dirtyAccounts
  refine ⟨head_importedChain, tableCodecs metadata blocks,
    ((whole _).2 ?_).mpr storesNoAccount_importedChain⟩
  rw [serializeState_importedChain]
  exact hold_tableCodecs metadata blocks (Nat.pow_pos (by decide))

end FirstImport

end Chain

end VeloChain
