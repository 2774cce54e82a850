import VeloChain.Node.LosslessHost
import VeloChain.Node.Snapshot
import VeloChain.Storage.WriteLog

/-! What an import of any file does.
A file whose sections can be read is stored before its game state is decoded, and neither the
links of its blocks nor its metadata are looked at. So the file decides whether a failed import
leaves the database alone and whether a successful one has imported a chain.
-/

namespace VeloChain

open Database

/-- Blocks with numbers from `number` on, each naming the hash of the one before. -/
def LinkedFrom (crypto : Crypto) : Nat → List SnapshotBlock → Prop
  | _, [] => True
  | number, [block] => block.header.number.toNat = number
  | number, block :: child :: rest =>
      block.header.number.toNat = number
      ∧ child.header.parentHash = block.header.hash crypto
      ∧ LinkedFrom crypto (number + 1) (child :: rest)

/-- The blocks are the chain that the metadata describe: linked from number 0 on, as many as
counted, up to the number and the hash noted.
-/
structure SnapshotMeta.Describes (crypto : Crypto) (metadata : SnapshotMeta)
    (blocks : List SnapshotBlock) : Prop where
  linked : LinkedFrom crypto 0 blocks
  blockCount : metadata.blockCount.toNat = blocks.length
  last
    : ∃ last,
        blocks.getLast? = some last
        ∧ last.header.number = metadata.blockNumber
        ∧ displayHash (last.header.hash crypto) = metadata.blockHash

/-- The database leads from every number of the chain to its block, and the latest block is the
last one.
-/
structure Database.HoldsChain (crypto : Crypto) (blocks : List SnapshotBlock) (db : Database)
    : Prop where
  indexed
    : ∀ number block, blocks[number]? = some block →
        db.getBlockHashByNumber (UInt64.ofNat number) = .ok (some (block.header.hash crypto))
  latest
    : ∀ last, blocks.getLast? = some last →
        db.getLatestBlockNumber = .ok (some last.header.number)

variable {F : Type} [F32 F]

/-- The writes of an import, one after the other. -/
def importPuts (host : Host F) (order : IterationOrder Address Account)
    (blocks : List SnapshotBlock) (gameState : Bytes) (state : WorldState) : List Put :=
  blocks.flatMap (fun block =>
      blockPuts host.crypto host.blocks (Block.new block.header block.body.transactions))
  ++ (blocks.getLast?.map (fun last => latestPut last.header.number)).toList
  ++ { cf := .gameState, key := "world".toUTF8.toList, value := gameState }
  :: WorldState.accountPuts host.account state.dirtyAccounts (order.keys state.dirtyAccounts)

/-- A failed import leaves the database unchanged, and a successful one has imported the chain
that its metadata describe.
-/
def ImportsAllOrNothing (host : Host F) (codecs : SnapshotCodecs)
    (order : IterationOrder Address Account) (file : Bytes) (worldSeed : UInt64)
    (state : WorldState) (db : Database) : Prop :=
  let outcome := importSnapshot host codecs order file worldSeed state db
  match outcome.1 with
  | .error _ => outcome.2.2 = db
  | .ok (metadata, _) =>
      ∃ blocks gameState,
        readSnapshot codecs file = .ok (metadata, blocks, gameState)
        ∧ metadata.Describes host.crypto blocks
        ∧ outcome.2.2.HoldsChain host.crypto blocks

variable {host : Host F} {order : IterationOrder Address Account}

-----------------------------------------------------------------------------------------
-- The chain in the database
-----------------------------------------------------------------------------------------

/-- Storing linked blocks does not touch the numbers below theirs, and leads from their numbers
to them, by induction on the blocks.
-/
theorem getBlockHashByNumber_foldl {crypto : Crypto} (codecs : BlockCodecs)
    {blocks : List SnapshotBlock} {first : Nat} (linked : LinkedFrom crypto first blocks)
    (db : Database)
    : let stored :=
        blocks.foldl (fun (db : Database) (block : SnapshotBlock) =>
          db.putBlock crypto codecs (Block.new block.header block.body.transactions)) db
      (∀ number : UInt64, number.toNat < first →
        stored.getBlockHashByNumber number = db.getBlockHashByNumber number)
      ∧ ∀ i block, blocks[i]? = some block →
          block.header.number.toNat = first + i
          ∧ stored.getBlockHashByNumber block.header.number
            = .ok (some (block.header.hash crypto)) := by
  induction blocks generalizing first db with
  | nil => simp
  | cons block rest ih =>
      have here : block.header.number.toNat = first ∧ LinkedFrom crypto (first + 1) rest := by
        cases rest with
        | nil => exact ⟨linked, trivial⟩
        | cons child rest => exact ⟨linked.1, linked.2.2⟩
      obtain ⟨numbered, later⟩ := here
      obtain ⟨below, indexed⟩ :=
        ih later (db.putBlock crypto codecs (Block.new block.header block.body.transactions))
      refine ⟨fun number small => ?_, fun i found isFound => ?_⟩
      · rw [List.foldl_cons, below number (Nat.lt_succ_of_lt small),
          getBlockHashByNumber_putBlock, if_neg]
        rintro rfl
        exact Nat.ne_of_lt small numbered
      · cases i with
        | zero =>
            obtain rfl := Option.some.inj isFound
            refine ⟨numbered, ?_⟩
            rw [List.foldl_cons, below _ (numbered ▸ Nat.lt_succ_self _),
              getBlockHashByNumber_putBlock]
            exact if_pos rfl
        | succ i =>
            obtain ⟨number, hash⟩ := indexed i found isFound
            exact ⟨by omega, hash⟩

/-- Storing the blocks of a chain from number 0 on makes the database hold that chain. -/
theorem holdsChain_putSnapshotBlocks {crypto : Crypto} (codecs : BlockCodecs)
    {blocks : List SnapshotBlock} (linked : LinkedFrom crypto 0 blocks) (db : Database)
    : (db.putSnapshotBlocks crypto codecs blocks).HoldsChain crypto blocks := by
  have stored := (getBlockHashByNumber_foldl codecs linked db).2
  constructor
  · intro number block found
    obtain ⟨numbered, hash⟩ := stored number block found
    rw [Nat.zero_add] at numbered
    rw [← numbered, UInt64.ofNat_toNat, ← hash]
    apply getBlockHashByNumber_congr
    rw [putSnapshotBlocks]
    split
    next => exact contents_putLatestBlockNumber (by decide) _ _
    next => rfl
  · intro last isLast
    simp only [putSnapshotBlocks, isLast]
    exact getLatestBlockNumber_put _ _

theorem Database.HoldsChain.congr {crypto : Crypto} {blocks : List SnapshotBlock}
    {db db' : Database} (holds : db.HoldsChain crypto blocks)
    (numbers : db'.contents .blockNumberToHash = db.contents .blockNumberToHash)
    (metadata : db'.contents .metadata = db.contents .metadata)
    : db'.HoldsChain crypto blocks := by
  constructor
  · intro number block found
    rw [getBlockHashByNumber_congr numbers]
    exact holds.indexed number block found
  · intro last isLast
    rw [getLatestBlockNumber_congr metadata]
    exact holds.latest last isLast

-----------------------------------------------------------------------------------------
-- The writes of an import
-----------------------------------------------------------------------------------------

theorem replay_blocks (crypto : Crypto) (codecs : BlockCodecs) (blocks : List SnapshotBlock)
    (db : Database)
    : db.replay (blocks.flatMap (fun block =>
          blockPuts crypto codecs (Block.new block.header block.body.transactions)))
      = blocks.foldl (fun (db : Database) (block : SnapshotBlock) =>
          db.putBlock crypto codecs (Block.new block.header block.body.transactions)) db := by
  induction blocks generalizing db with
  | nil => rfl
  | cons block rest ih =>
      rw [List.flatMap_cons, replay, CommitPoint.replay_append]
      change replay _ (replay _ db) = _
      rw [replay_blockPuts, ih]
      rfl

omit [F32 F] in
/-- The writes of an import, one after the other, are what it does to the database. -/
theorem replay_importPuts (blocks : List SnapshotBlock) (gameState : Bytes) (state : WorldState)
    (db : Database)
    : db.replay (importPuts host order blocks gameState state)
      = WorldState.writeAccounts host.account state.dirtyAccounts
          (order.keys state.dirtyAccounts)
          ((db.putSnapshotBlocks host.crypto host.blocks blocks).putGameState
            "world".toUTF8.toList gameState) := by
  have latest
      : (db.replay (blocks.flatMap (fun block =>
            blockPuts host.crypto host.blocks
              (Block.new block.header block.body.transactions)))).replay
          (blocks.getLast?.map (fun last => latestPut last.header.number)).toList
        = db.putSnapshotBlocks host.crypto host.blocks blocks := by
    rw [replay_blocks, putSnapshotBlocks]
    cases blocks.getLast? with
    | none => rfl
    | some last => rfl
  rw [← latest, ← WorldState.replay_accountPuts, importPuts, replay, CommitPoint.replay_append,
    CommitPoint.replay_append, CommitPoint.replay_cons]
  rfl

/-- An import of a file whose sections cannot be read fails and does nothing; else all writes
are made, and it succeeds where the game state can be decoded.
-/
theorem importSnapshot_cases (codecs : SnapshotCodecs) (file : Bytes) (worldSeed : UInt64)
    (state : WorldState) (db : Database)
    : let outcome := importSnapshot host codecs order file worldSeed state db
      (∃ e, readSnapshot codecs file = .error e ∧ outcome = (.error e, state, db))
      ∨ ∃ metadata blocks gameState,
          readSnapshot codecs file = .ok (metadata, blocks, gameState)
          ∧ outcome.2.2 = db.replay (importPuts host order blocks gameState state)
          ∧ ((∃ ecs world, host.ecs.decode gameState = .ok ecs ∧ outcome.1 = .ok (metadata, world))
            ∨ ∃ failure e, host.ecs.decode gameState = .error failure ∧ outcome.1 = .error e) := by
  unfold importSnapshot
  cases parts : readSnapshot codecs file with
  | error e => exact Or.inl ⟨e, rfl, rfl⟩
  | ok sections =>
      obtain ⟨metadata, blocks, gameState⟩ := sections
      have writes := @replay_importPuts F host order blocks gameState state db
      right
      refine ⟨metadata, blocks, gameState, rfl, ?_⟩
      rw [writes]
      cases decoded : host.ecs.decode gameState with
      | error failure =>
          simp only [GameWorld.fromState, decoded]
          exact ⟨rfl, Or.inr ⟨failure, _, rfl, rfl⟩⟩
      | ok ecs =>
          simp only [GameWorld.fromState, decoded]
          exact ⟨rfl, Or.inl ⟨ecs, _, rfl, rfl⟩⟩

omit [F32 F] in
/-- A chain that is imported is in the database. -/
theorem holdsChain_importPuts {blocks : List SnapshotBlock}
    (linked : LinkedFrom host.crypto 0 blocks) (gameState : Bytes) (state : WorldState)
    (db : Database)
    : (db.replay (importPuts host order blocks gameState state)).HoldsChain host.crypto
        blocks := by
  have untouched (cf : ColumnFamily) (other : cf ≠ .gameState)
      : (db.replay (importPuts host order blocks gameState state)).contents cf
        = (db.putSnapshotBlocks host.crypto host.blocks blocks).contents cf := by
    funext key
    rw [replay_importPuts, WorldState.contents_writeAccounts _ _ _ _ _ (Or.inl other),
      Database.putGameState, contents_putCf_of_ne other]
  exact (holdsChain_putSnapshotBlocks host.blocks linked db).congr (untouched _ (by decide))
    (untouched _ (by decide))

-----------------------------------------------------------------------------------------
-- All or nothing
-----------------------------------------------------------------------------------------

/-- For a file whose sections can be read, the law depends on whether its game state can be
decoded.
-/
theorem importsAllOrNothing_of_read {codecs : SnapshotCodecs} {file : Bytes}
    {metadata : SnapshotMeta} {blocks : List SnapshotBlock} {gameState : Bytes}
    (read : readSnapshot codecs file = .ok (metadata, blocks, gameState)) (worldSeed : UInt64)
    (state : WorldState) (db : Database)
    : ImportsAllOrNothing host codecs order file worldSeed state db
      ↔ match host.ecs.decode gameState with
        | .ok _ => metadata.Describes host.crypto blocks
        | .error _ => db.AlreadyHolds (importPuts host order blocks gameState state) := by
  unfold ImportsAllOrNothing
  simp only
  rcases @importSnapshot_cases F _ host order codecs file worldSeed state db with
    ⟨e, fails, -⟩ | ⟨metadata', blocks', gameState', parts, writes, reply⟩
  · cases read.symm.trans fails
  · cases read.symm.trans parts
    rw [writes]
    rcases reply with ⟨ecs, world, decoded, reply⟩ | ⟨failure, e, decoded, reply⟩
    · rw [reply, decoded]
      constructor
      · rintro ⟨blocks', gameState', parts, describes, -⟩
        cases read.symm.trans parts
        exact describes
      · intro describes
        exact ⟨blocks, gameState, read, describes,
          holdsChain_importPuts describes.linked gameState state db⟩
    · rw [reply, decoded]
      exact replay_eq_self_iff

/-- For every database and every file: the import is all or nothing exactly when the sections
of the file cannot be read, or its game state can be decoded and its metadata describe its
blocks, or its game state cannot be decoded and the database already has all that the import
writes.
-/
theorem importsAllOrNothing_iff (host : Host F) (codecs : SnapshotCodecs)
    (order : IterationOrder Address Account) (file : Bytes) (worldSeed : UInt64)
    (state : WorldState) (db : Database)
    : ImportsAllOrNothing host codecs order file worldSeed state db
      ↔ ∀ metadata blocks gameState,
          readSnapshot codecs file = .ok (metadata, blocks, gameState) →
            match host.ecs.decode gameState with
            | .ok _ => metadata.Describes host.crypto blocks
            | .error _ => db.AlreadyHolds (importPuts host order blocks gameState state) := by
  cases parts : readSnapshot codecs file with
  | error e =>
      have nothing : ImportsAllOrNothing host codecs order file worldSeed state db := by
        simp only [ImportsAllOrNothing, importSnapshot, parts]
      exact iff_of_true nothing fun _ _ _ read => nomatch read
  | ok sections =>
      obtain ⟨metadata, blocks, gameState⟩ := sections
      rw [importsAllOrNothing_of_read parts]
      constructor
      · intro holds metadata' blocks' gameState' read
        cases read
        exact holds
      · exact fun all => all metadata blocks gameState rfl

section NoBlocks

/-- Metadata of five blocks. -/
def fiveBlocks : SnapshotMeta :=
  { version := 1, chainId := 1, blockNumber := 4, blockHash := "", gameTick := 0
    blockCount := 5, createdAt := 0 }

def fiveBlocksCodecs : SnapshotCodecs :=
  { metadata := .ofTable [fiveBlocks], blocks := .ofTable [[]] }

/-- A file whose metadata count five blocks, without any block and with an empty game state. -/
def fileOfNoBlocks : Bytes :=
  snapshotFile (fiveBlocksCodecs.metadata.encode fiveBlocks) (fiveBlocksCodecs.blocks.encode []) []

theorem readSnapshot_fileOfNoBlocks
    : readSnapshot fiveBlocksCodecs fileOfNoBlocks = .ok (fiveBlocks, [], []) :=
  readSnapshot_file (by decide) (by decide) (by decide) (by decide) (by decide)

/-- A host whose game states have a leading byte, so that an empty one is cut off. -/
def Host.leadingByte : Host Milli :=
  { Host.lossless with
    ecs :=
      { encode := fun nextId entities => 0 :: EcsCodec.enumerated.encode nextId entities
        decode := fun bytes =>
          match bytes with
          | [] => .error "unexpected end of file"
          | _ :: rest => EcsCodec.enumerated.decode rest } }

theorem Host.decode_nil_lossless
    : Host.lossless.ecs.decode [] = .ok { nextEntityId := 0, entities := .ofEntries [] } := by
  have first
      : Encodable.decode (Bytes.toNat [])
        = some (0, ([] : List (EntityId × List (Component Milli)))) := by
    simp [Bytes.toNat, Encodable.decode_prod_val]
  simp only [lossless, EcsCodec.enumerated, Codec.enumerated, first, Except.map]

/-- A failed import leaves an empty game state in the database, and a successful one stores no
block where the metadata count five.
-/
theorem importsAllOrNothing_fails
    : let order := (BlockOrder.ascending Milli).dirtyAccounts
      ¬ ImportsAllOrNothing Host.leadingByte fiveBlocksCodecs order fileOfNoBlocks 0 .new .empty
      ∧ ¬ ImportsAllOrNothing Host.lossless fiveBlocksCodecs order fileOfNoBlocks 0 .new
          .empty := by
  constructor
  · rw [importsAllOrNothing_of_read readSnapshot_fileOfNoBlocks]
    intro holds
    have world := holds .gameState "world".toUTF8.toList [] (by decide +kernel)
    cases world
  · rw [importsAllOrNothing_of_read readSnapshot_fileOfNoBlocks]
    rw [Host.decode_nil_lossless]
    intro describes
    cases describes.blockCount

end NoBlocks

end VeloChain
