import VeloChain.Lib.BinaryFormats
import VeloChain.Node.Chain

/-! Chain state snapshots: the blocks up to the latest one and the game world, written to a file
and read from it. Writing the file does not fail here; the formats of its parts are parameters.
-/

namespace VeloChain

/-- Snapshot metadata header. -/
structure SnapshotMeta where
  version : UInt32
  chainId : UInt64
  blockNumber : UInt64
  blockHash : String
  gameTick : UInt64
  blockCount : UInt64
  createdAt : UInt64
  deriving DecidableEq

/-- A single block entry in the snapshot. -/
structure SnapshotBlock where
  header : BlockHeader
  body : BlockBody
  deriving DecidableEq

/-- The serde_json format of the metadata and the bincode format of the blocks. -/
structure SnapshotCodecs where
  metadata : Codec SnapshotMeta
  blocks : Codec (List SnapshotBlock)

/-- Magic bytes identifying a snapshot file. -/
def snapshotMagic : Bytes := "VLCSNAP".toUTF8.toList ++ [1]

def snapshotVersion : UInt32 := 1

/-- A snapshot file: magic bytes and three sections. The length of the first takes 32 bits. -/
def snapshotFile (metadata blocks gameState : Bytes) : Bytes :=
  snapshotMagic
  ++ (Framing.frame 4 metadata ++ (Framing.frame 8 blocks ++ Framing.frame 8 gameState))

-----------------------------------------------------------------------------------------
-- Export
-----------------------------------------------------------------------------------------

/-- What an export has collected: the blocks, and hash and game tick of the last one. -/
structure SnapshotProgress where
  blocks : List SnapshotBlock
  headHash : String
  headGameTick : UInt64

namespace Database

variable (codecs : BlockCodecs)

/-- Collect one block; a missing body counts as an empty one. -/
def collectBlock (db : Database) (latestBlock num : UInt64) (progress : SnapshotProgress)
    : Except NodeError Unit × SnapshotProgress :=
  match db.getBlockHashByNumber num with
  | .error e => (.error (.storage e), progress)
  | .ok none => (.error (.internal s!"Missing block hash for number {num}"), progress)
  | .ok (some hash) =>
      match db.getHeader codecs hash with
      | .error e => (.error (.storage e), progress)
      | .ok none => (.error (.internal s!"Missing header for block {num}"), progress)
      | .ok (some header) =>
          match db.getBody codecs hash with
          | .error e => (.error (.storage e), progress)
          | .ok found =>
              let progress :=
                if num = latestBlock then
                  { progress with headHash := displayHash hash, headGameTick := header.gameTick }
                else progress
              (.ok (),
                { progress with
                  blocks :=
                    progress.blocks ++ [{ header, body := found.getD { transactions := [] } }] })

/-- The numbers from genesis to the latest block. -/
def numbersUpTo (latestBlock : UInt64) : List UInt64 :=
  (List.range (latestBlock.toNat + 1)).map UInt64.ofNat

end Database

variable {F : Type} [F32 F]

/-- Export the chain state to a snapshot file. -/
def exportSnapshot (host : Host F) (codecs : SnapshotCodecs) (walk : EntityOrder F)
    (now : UInt64) (db : Database) (gameWorld : GameWorld F) (chainId : UInt64)
    : Except NodeError (SnapshotMeta × Bytes) :=
  match db.getLatestBlockNumber with
  | .error e => .error (.storage e)
  | .ok none => .error .notInitialized
  | .ok (some latestBlock) =>
      match Loop.run (db.collectBlock host.blocks latestBlock) (Database.numbersUpTo latestBlock)
          { blocks := [], headHash := "", headGameTick := 0 } with
      | (.error e, _) => .error e
      | (.ok (), progress) =>
          let metadata : SnapshotMeta :=
            { version := snapshotVersion
              chainId
              blockNumber := latestBlock
              blockHash := progress.headHash
              gameTick := progress.headGameTick
              blockCount := UInt64.ofNat progress.blocks.length
              createdAt := now }
          -- accounts and receipts are not part of the file
          .ok (metadata,
            snapshotFile (codecs.metadata.encode metadata) (codecs.blocks.encode progress.blocks)
              (gameWorld.serializeState host.ecs walk))

-----------------------------------------------------------------------------------------
-- Import
-----------------------------------------------------------------------------------------

/-- A file that ends too early. -/
def snapshotReadError : NodeError := .internal "Read error: failed to fill whole buffer"

/-- Read the metadata, and leave the rest of the file. -/
def openSnapshot (codecs : SnapshotCodecs) (file : Bytes)
    : Except NodeError (SnapshotMeta × Bytes) :=
  match Framing.readExact 8 file with
  | none => .error snapshotReadError
  | some (magic, file) =>
      if magic ≠ snapshotMagic then .error (.internal "Invalid snapshot file format")
      else
        match Framing.readSection 4 file with
        | none => .error snapshotReadError
        | some (data, file) =>
            match codecs.metadata.decode data with
            | .error e => .error (.internal s!"Meta deserialization: {e}")
            | .ok metadata => .ok (metadata, file)

/-- The parts of a snapshot file: metadata, blocks and the bytes of the game world. -/
def readSnapshot (codecs : SnapshotCodecs) (file : Bytes)
    : Except NodeError (SnapshotMeta × List SnapshotBlock × Bytes) :=
  match openSnapshot codecs file with
  | .error e => .error e
  | .ok (metadata, file) =>
      match Framing.readSection 8 file with
      | none => .error snapshotReadError
      | some (data, file) =>
          match codecs.blocks.decode data with
          | .error e => .error (.internal s!"Block deserialization: {e}")
          | .ok blocks =>
              match Framing.readSection 8 file with
              | none => .error snapshotReadError
              | some (gameState, _) => .ok (metadata, blocks, gameState)

/-- Store the blocks of a snapshot, and the number of the last one as the latest. -/
def Database.putSnapshotBlocks (crypto : Crypto) (codecs : BlockCodecs)
    (blocks : List SnapshotBlock) (db : Database) : Database :=
  let db :=
    blocks.foldl (fun (db : Database) (block : SnapshotBlock) =>
      db.putBlock crypto codecs (Block.new block.header block.body.transactions)) db
  match blocks.getLast? with
  | some last => db.putLatestBlockNumber last.header.number
  | none => db

/-- Import a snapshot into the database and game world. -/
def importSnapshot (host : Host F) (codecs : SnapshotCodecs)
    (order : IterationOrder Address Account) (file : Bytes) (worldSeed : UInt64)
    (state : WorldState) (db : Database)
    : Except NodeError (SnapshotMeta × GameWorld F) × WorldState × Database :=
  match readSnapshot codecs file with
  | .error e => (.error e, state, db)
  | .ok (metadata, blocks, gameState) =>
      let db := db.putSnapshotBlocks host.crypto host.blocks blocks
      let db := db.putGameState "world".toUTF8.toList gameState
      let (_, state, db) := state.commit host.account db host.crypto.keccak256 order
      match GameWorld.fromState host.crypto.keccak256 host.ecs gameState worldSeed with
      | .error (.serialization e) =>
          (.error (.internal s!"Game world restore: Serialization error: {e}"), state, db)
      | .error (.entityNotFound entity) =>
          (.error (.internal s!"Game world restore: Entity not found: {entity}"), state, db)
      | .ok world => (.ok (metadata, world), state, db)

-----------------------------------------------------------------------------------------
-- The file
-----------------------------------------------------------------------------------------

section File

variable {codecs : SnapshotCodecs} {metadata : SnapshotMeta}

/-- The metadata of a file is read back, and the rest of the file is left. -/
theorem openSnapshot_file (reads : codecs.metadata.RoundTripsAt metadata)
    (short : (codecs.metadata.encode metadata).length < 256 ^ 4) (blocks gameState : Bytes)
    : openSnapshot codecs (snapshotFile (codecs.metadata.encode metadata) blocks gameState)
      = .ok (metadata, Framing.frame 8 blocks ++ Framing.frame 8 gameState) := by
  have magic := Framing.readExact_append snapshotMagic
    (Framing.frame 4 (codecs.metadata.encode metadata)
      ++ (Framing.frame 8 blocks ++ Framing.frame 8 gameState))
  have length : snapshotMagic.length = 8 := by decide +kernel
  rw [length] at magic
  rw [openSnapshot, snapshotFile, magic]
  simp only [ne_eq, not_true_eq_false, if_false, Framing.readSection_frame short]
  rw [show codecs.metadata.decode _ = _ from reads]

/-- All parts of a file are read back. -/
theorem readSnapshot_file (reads : codecs.metadata.RoundTripsAt metadata)
    (short : (codecs.metadata.encode metadata).length < 256 ^ 4) {blocks : List SnapshotBlock}
    (blocksRead : codecs.blocks.RoundTripsAt blocks)
    (blocksFit : (codecs.blocks.encode blocks).length < 256 ^ 8) {gameState : Bytes}
    (stateFits : gameState.length < 256 ^ 8)
    : readSnapshot codecs
        (snapshotFile (codecs.metadata.encode metadata) (codecs.blocks.encode blocks) gameState)
      = .ok (metadata, blocks, gameState) := by
  have rest := Framing.readSection_frame stateFits []
  rw [List.append_nil] at rest
  rw [readSnapshot, openSnapshot_file reads short]
  simp only [Framing.readSection_frame blocksFit, rest]
  rw [show codecs.blocks.decode _ = _ from blocksRead]

end File

end VeloChain
