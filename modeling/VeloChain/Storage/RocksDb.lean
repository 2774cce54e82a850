import VeloChain.Lib.Simulation
import VeloChain.Storage.Database

/-! The database over RocksDB: column families with names, and operations that can fail.
Writing into an open column family does not fail here, and the serializers are parameters.
-/

namespace VeloChain

open Mirroring

/-- Why a write is rejected. -/
inductive WriteError
  | database (message : String)
  | serialization (message : String)
  deriving DecidableEq

instance : ToString WriteError where
  toString
    | .database message => s!"Database error: {message}"
    | .serialization message => s!"Serialization error: {message}"

/-- The name of a column family. -/
def ColumnFamily.name : ColumnFamily → String
  | .headers => "headers"
  | .bodies => "bodies"
  | .blockNumberToHash => "block_number_to_hash"
  | .transactions => "transactions"
  | .receipts => "receipts"
  | .accounts => "accounts"
  | .code => "code"
  | .storage => "storage"
  | .gameState => "game_state"
  | .metadata => "meta"

/-- All column families used by the database. -/
def allColumnFamilies : List String :=
  [ ColumnFamily.headers.name
  , ColumnFamily.bodies.name
  , ColumnFamily.blockNumberToHash.name
  , ColumnFamily.transactions.name
  , ColumnFamily.receipts.name
  , ColumnFamily.accounts.name
  , ColumnFamily.code.name
  , ColumnFamily.storage.name
  , ColumnFamily.gameState.name
  , ColumnFamily.metadata.name ]

/-- The serializers of the stored block data. -/
structure BlockEncoders where
  header : BlockHeader → Except String Bytes
  body : BlockBody → Except String Bytes
  txIndex : TxIndexEntry → Except String Bytes

/-- The open column families and their contents. -/
@[ext]
structure RocksDb where
  families : List String
  contents : String → Bytes → Option Bytes

/-- The error for a column family that is not open. -/
def columnFamilyNotFound (cfName : String) : WriteError :=
  .database s!"Column family not found: {cfName}"

/-- Go on with serialized data. -/
def withEncoded {σ : Type} (encoded : Except String Bytes) (write : Bytes → Step WriteError σ)
    : Step WriteError σ :=
  match encoded with
  | .error e => fail (.serialization e)
  | .ok data => write data

namespace RocksDb

/-- What is under a key after a write or a deletion. -/
def update (cfName : String) (key : Bytes) (value : Option Bytes) (db : RocksDb) : RocksDb :=
  { db with
    contents := fun cfName' key' =>
      if cfName' = cfName ∧ key' = key then value else db.contents cfName' key' }

/-- A database with the column families of the node, and the one that RocksDB always opens. -/
def opened : RocksDb :=
  { families := allColumnFamilies ++ ["default"], contents := fun _ _ => none }

/-- Put a raw value into a column family. -/
def putCf (cfName : String) (key value : Bytes) : Step WriteError RocksDb := fun db =>
  if cfName ∈ db.families then (.ok (), db.update cfName key (some value))
  else (.error (columnFamilyNotFound cfName), db)

/-- Delete a key from a column family. -/
def deleteCf (cfName : String) (key : Bytes) : Step WriteError RocksDb := fun db =>
  if cfName ∈ db.families then (.ok (), db.update cfName key none)
  else (.error (columnFamilyNotFound cfName), db)

section Blocks

variable (crypto : Crypto) (encoders : BlockEncoders)

/-- Store a block header, and the block number to hash mapping. -/
def putHeader (hash : B256) (header : BlockHeader) : Step WriteError RocksDb :=
  withEncoded (encoders.header header) (fun encoded =>
    andThen (putCf ColumnFamily.headers.name (hashSlice hash) encoded)
      (putCf ColumnFamily.blockNumberToHash.name (Database.numberKey header.number)
        (hashSlice hash)))

/-- Index one transaction of a block. -/
def putTxIndex (blockHash : B256) (entry : SignedTransaction × Nat) : Step WriteError RocksDb :=
  withEncoded (encoders.txIndex { blockHash, index := UInt32.ofNat entry.2 })
    (putCf ColumnFamily.transactions.name (hashSlice entry.1.hash))

/-- Store a complete block. -/
def putBlock (block : Block) : Step WriteError RocksDb :=
  let hash := block.hash crypto
  andThen (putHeader encoders hash block.header)
    (withEncoded (encoders.body block.body) (fun encoded =>
      andThen (putCf ColumnFamily.bodies.name (hashSlice hash) encoded)
        (Loop.run (putTxIndex encoders hash) block.body.transactions.zipIdx)))

/-- Store a transaction receipt. -/
def putReceipt (txHash : B256) (receiptData : Bytes) : Step WriteError RocksDb :=
  putCf ColumnFamily.receipts.name (hashSlice txHash) receiptData

/-- Store chain metadata. -/
def putMeta (key : String) (value : Bytes) : Step WriteError RocksDb :=
  putCf ColumnFamily.metadata.name key.toUTF8.toList value

end Blocks

-----------------------------------------------------------------------------------------
-- The typed database
-----------------------------------------------------------------------------------------

/-- The contents of the column families of the node. -/
def view (db : RocksDb) : Database := { contents := fun cf => db.contents cf.name }

/-- The column families of the node are open. -/
def IsOpen (db : RocksDb) : Prop := ∀ cf : ColumnFamily, cf.name ∈ db.families

end RocksDb

theorem ColumnFamily.name_injective : ColumnFamily.name.Injective := by
  intro left right same
  cases left <;> cases right <;> first | rfl | exact absurd same (by decide)

/-- The serializers of formats that take every value. -/
def BlockCodecs.encoders (codecs : BlockCodecs) : BlockEncoders :=
  { header := fun header => .ok (codecs.header.encode header)
    body := fun body => .ok (codecs.body.encode body)
    txIndex := fun entry => .ok (codecs.txIndex.encode entry) }

namespace RocksDb

/-- A step succeeds in an open database and does there what it does to the typed one. -/
def Refines (step : Step WriteError RocksDb) (typed : Database → Database) : Prop :=
  ∀ db, db.IsOpen → (step db).1 = .ok () ∧ (step db).2.IsOpen ∧ (step db).2.view = typed db.view

theorem refines_putCf (cf : ColumnFamily) (key value : Bytes)
    : Refines (putCf cf.name key value) (Database.putCf cf key value) := by
  intro db isOpen
  rw [putCf, if_pos (isOpen cf)]
  refine ⟨rfl, isOpen, ?_⟩
  ext1
  funext cf' key'
  simp only [view, update, Database.contents_putCf, ColumnFamily.name_injective.eq_iff]

theorem Refines.andThen {first second : Step WriteError RocksDb}
    {typed typed' : Database → Database} (refines : Refines first typed)
    (later : Refines second typed')
    : Refines (andThen first second) (typed' ∘ typed) := by
  intro db isOpen
  obtain ⟨succeeds, isOpen, sameView⟩ := refines db isOpen
  unfold Mirroring.andThen
  rcases outcome : first db with ⟨_ | _, next⟩
  · rw [outcome] at succeeds
    cases succeeds
  · rw [outcome] at isOpen sameView
    obtain ⟨succeeds, isOpen, sameViewLater⟩ := later next isOpen
    exact ⟨succeeds, isOpen, by rw [sameViewLater, sameView]; rfl⟩

section Blocks

variable (crypto : Crypto) (codecs : BlockCodecs)

theorem refines_putHeader (hash : B256) (header : BlockHeader)
    : Refines (putHeader codecs.encoders hash header) (Database.putHeader codecs hash header) :=
  (refines_putCf _ _ _).andThen (refines_putCf _ _ _)

/-- By induction on the transactions. -/
theorem refines_putTxIndex (blockHash : B256) (index : Nat) (transactions : List SignedTransaction)
    : Refines (Loop.run (putTxIndex codecs.encoders blockHash) (transactions.zipIdx index))
        (Database.putTransactionIndex codecs blockHash index transactions) := by
  induction transactions generalizing index with
  | nil => exact fun db isOpen => ⟨rfl, isOpen, rfl⟩
  | cons tx rest ih =>
      rw [List.zipIdx_cons]
      exact (refines_putCf _ _ _).andThen (ih (index + 1))

/-- Storing a block in an open database does to the typed database what the typed operation
does.
-/
theorem refines_putBlock (block : Block)
    : Refines (putBlock crypto codecs.encoders block) (Database.putBlock crypto codecs block) :=
  (refines_putHeader codecs _ _).andThen
    ((refines_putCf _ _ _).andThen (refines_putTxIndex codecs _ 0 _))

end Blocks

end RocksDb

end VeloChain
