import VeloChain.Primitives.Block

/-! The block database: byte keys and values in column families, and the typed operations
over them. A write never fails here; reading a stored value decodes it and can fail.
-/

namespace VeloChain

inductive StorageError
  | deserialization (message : String)
  | corruption (message : String)
  deriving DecidableEq

instance : ToString StorageError where
  toString
    | .deserialization message => s!"Deserialization error: {message}"
    | .corruption message => s!"Corruption detected: {message}"

/-- A serialization format for one type. -/
structure Codec (α : Type) where
  encode : α → Bytes
  decode : Bytes → Except String α

/-- The encoding of a value is read back. -/
def Codec.RoundTripsAt {α : Type} (codec : Codec α) (value : α) : Prop :=
  codec.decode (codec.encode value) = .ok value

instance {α : Type} [DecidableEq α] (codec : Codec α) (value : α)
    : Decidable (codec.RoundTripsAt value) :=
  inferInstanceAs (Decidable (_ = _))

/-- Every encoded value is read back. -/
def Codec.RoundTrips {α : Type} (codec : Codec α) : Prop := ∀ value, codec.RoundTripsAt value

/-- The format that stores a value as its position in a table. -/
def Codec.ofTable {α : Type} [DecidableEq α] (values : List α) : Codec α :=
  { encode := fun value => [UInt8.ofNat (values.idxOf value)]
    decode := fun bytes =>
      match bytes with
      | [position] =>
          match values[position.toNat]? with
          | some value => .ok value
          | none => .error "position out of range"
      | _ => .error "one byte expected" }

/-- A table of at most 256 values reads back each of them. -/
theorem Codec.roundTripsAt_ofTable {α : Type} [DecidableEq α] {values : List α} {value : α}
    (member : value ∈ values) (short : values.length ≤ 256)
    : (Codec.ofTable values).RoundTripsAt value := by
  have position : values.idxOf value < values.length := List.idxOf_lt_length_iff.mpr member
  have kept : (UInt8.ofNat (values.idxOf value)).toNat = values.idxOf value :=
    UInt8.toNat_ofNat_of_lt (Nat.lt_of_lt_of_le position short)
  simp only [RoundTripsAt, ofTable, kept, List.getElem?_idxOf member]

/-- The column families of the database. -/
inductive ColumnFamily
  | headers
  | bodies
  | blockNumberToHash
  | transactions
  | receipts
  | accounts
  | code
  | storage
  | gameState
  | metadata
  deriving DecidableEq

/-- Index entry for locating a transaction within a block. -/
structure TxIndexEntry where
  blockHash : B256
  index : UInt32
  deriving DecidableEq

/-- The bincode formats of the stored block data. -/
structure BlockCodecs where
  header : Codec BlockHeader
  body : Codec BlockBody
  txIndex : Codec TxIndexEntry

/-- The contents of every column family. -/
@[ext]
structure Database where
  contents : ColumnFamily → Bytes → Option Bytes

namespace Database

/-- A database that was just created. -/
def empty : Database := { contents := fun _ _ => none }

/-- Get a raw value from a column family. -/
def getCf (db : Database) (cf : ColumnFamily) (key : Bytes) : Option Bytes :=
  db.contents cf key

/-- Put a raw value into a column family. -/
def putCf (cf : ColumnFamily) (key value : Bytes) (db : Database) : Database :=
  { contents := fun cf' key' =>
      if cf' = cf ∧ key' = key then some value else db.contents cf' key' }

/-- The key of a block number. -/
def numberKey (number : UInt64) : Bytes := Bytes.bigEndian 8 number.toNat

section Blocks

variable (crypto : Crypto) (codecs : BlockCodecs)

/-- Store a block header, and the block number to hash mapping. -/
def putHeader (hash : B256) (header : BlockHeader) (db : Database) : Database :=
  (db.putCf .headers (hashSlice hash) (codecs.header.encode header)).putCf
    .blockNumberToHash (numberKey header.number) (hashSlice hash)

/-- Get a block header by hash. -/
def getHeader (db : Database) (hash : B256) : Except StorageError (Option BlockHeader) :=
  match db.getCf .headers (hashSlice hash) with
  | none => .ok none
  | some data =>
      match codecs.header.decode data with
      | .error e => .error (.deserialization e)
      | .ok header => .ok (some header)

/-- Get a block hash by number. -/
def getBlockHashByNumber (db : Database) (number : UInt64)
    : Except StorageError (Option B256) :=
  match db.getCf .blockNumberToHash (numberKey number) with
  | none => .ok none
  | some data =>
      if data.length ≠ 32 then .error (.corruption "Invalid block hash length")
      else .ok (some (hashFromSlice data))

/-- Index the transactions of a block from position `index` on. -/
def putTransactionIndex (blockHash : B256) : Nat → List SignedTransaction → Database → Database
  | _, [], db => db
  | index, tx :: rest, db =>
      putTransactionIndex blockHash (index + 1) rest
        (db.putCf .transactions (hashSlice tx.hash)
          (codecs.txIndex.encode { blockHash, index := UInt32.ofNat index }))

/-- Store a complete block: header, body and transaction index. -/
def putBlock (block : Block) (db : Database) : Database :=
  let hash := block.hash crypto
  putTransactionIndex codecs hash 0 block.body.transactions
    ((db.putHeader codecs hash block.header).putCf .bodies (hashSlice hash)
      (codecs.body.encode block.body))

/-- Get a block body by hash. -/
def getBody (db : Database) (hash : B256) : Except StorageError (Option BlockBody) :=
  match db.getCf .bodies (hashSlice hash) with
  | none => .ok none
  | some data =>
      match codecs.body.decode data with
      | .error e => .error (.deserialization e)
      | .ok body => .ok (some body)

end Blocks

/-- The key of the latest block number among the chain metadata. -/
def latestBlockNumberKey : Bytes := "latest_block_number".toUTF8.toList

/-- Store the latest block number. -/
def putLatestBlockNumber (number : UInt64) (db : Database) : Database :=
  db.putCf .metadata latestBlockNumberKey (Bytes.bigEndian 8 number.toNat)

/-- Get the latest block number. -/
def getLatestBlockNumber (db : Database) : Except StorageError (Option UInt64) :=
  match db.getCf .metadata latestBlockNumberKey with
  | none => .ok none
  | some data =>
      if data.length ≠ 8 then .error (.corruption "Invalid block number length")
      else .ok (some (UInt64.ofNat (Bytes.toNat data)))

/-- Store a transaction receipt. -/
def putReceipt (txHash : B256) (data : Bytes) (db : Database) : Database :=
  db.putCf .receipts (hashSlice txHash) data

/-- Get a transaction receipt by hash. -/
def getReceipt (db : Database) (txHash : B256) : Option Bytes :=
  db.getCf .receipts (hashSlice txHash)

/-- Store game state data. -/
def putGameState (key value : Bytes) (db : Database) : Database :=
  db.putCf .gameState key value

/-- Get game state data. -/
def getGameState (db : Database) (key : Bytes) : Option Bytes := db.getCf .gameState key

theorem contents_putCf (db : Database) (cf cf' : ColumnFamily) (key key' value : Bytes)
    : (db.putCf cf key value).contents cf' key'
      = if cf' = cf ∧ key' = key then some value else db.contents cf' key' := rfl

/-- A write leaves every other column family as it is. -/
theorem contents_putCf_of_ne {db : Database} {cf cf' : ColumnFamily} (h : cf' ≠ cf)
    (key value : Bytes)
    : (db.putCf cf key value).contents cf' = db.contents cf' := by
  funext key'
  simp only [contents_putCf, h, false_and, if_false]

theorem numberKey_inj {left right : UInt64} : numberKey left = numberKey right ↔ left = right := by
  refine ⟨fun h => ?_, congrArg numberKey⟩
  apply UInt64.toNat_inj.mp
  exact Bytes.bigEndian_inj (by simpa using left.toNat_lt) (by simpa using right.toNat_lt) h

/-- Indexing transactions only writes the transaction index. -/
theorem contents_putTransactionIndex (codecs : BlockCodecs) (blockHash : B256) (index : Nat)
    (transactions : List SignedTransaction) (db : Database) {cf : ColumnFamily}
    (h : cf ≠ .transactions)
    : (putTransactionIndex codecs blockHash index transactions db).contents cf
      = db.contents cf := by
  induction transactions generalizing index db with
  | nil => rfl
  | cons tx rest ih => rw [putTransactionIndex, ih, contents_putCf_of_ne h]

theorem getLatestBlockNumber_put (db : Database) (number : UInt64)
    : (db.putLatestBlockNumber number).getLatestBlockNumber = .ok (some number) := by
  have small : number.toNat < 256 ^ 8 := by simpa using number.toNat_lt
  simp only [getLatestBlockNumber, putLatestBlockNumber, getCf, contents_putCf, and_self,
    if_true, Bytes.length_bigEndian, ne_eq, not_true_eq_false, if_false,
    Bytes.toNat_bigEndian, Nat.mod_eq_of_lt small, UInt64.ofNat_toNat]

/-- After storing a block, the index maps its number to its hash and is unchanged elsewhere. -/
theorem getBlockHashByNumber_putBlock (crypto : Crypto) (codecs : BlockCodecs) (block : Block)
    (db : Database) (number : UInt64)
    : (db.putBlock crypto codecs block).getBlockHashByNumber number
      = if number = block.number then .ok (some (block.hash crypto))
        else db.getBlockHashByNumber number := by
  by_cases same : number = block.header.number <;>
    simp [getBlockHashByNumber, getCf, putBlock, putHeader, Block.number, contents_putCf,
      contents_putTransactionIndex, numberKey_inj, same]

/-- After storing a block, its header is found under its hash; other hashes are unchanged. -/
theorem getHeader_putBlock (crypto : Crypto) {codecs : BlockCodecs} {block : Block}
    (sound : codecs.header.RoundTripsAt block.header) (db : Database) (hash : B256)
    : (db.putBlock crypto codecs block).getHeader codecs hash
      = if hash = block.hash crypto then .ok (some block.header)
        else db.getHeader codecs hash := by
  by_cases same : hash = block.hash crypto <;>
    simp [getHeader, getCf, putBlock, putHeader, contents_putCf, contents_putTransactionIndex,
      hashSlice_inj, same, show codecs.header.decode _ = _ from sound]

/-- After storing a block, its body is found under its hash; other hashes are unchanged. -/
theorem getBody_putBlock (crypto : Crypto) {codecs : BlockCodecs} {block : Block}
    (sound : codecs.body.RoundTripsAt block.body) (db : Database) (hash : B256)
    : (db.putBlock crypto codecs block).getBody codecs hash
      = if hash = block.hash crypto then .ok (some block.body)
        else db.getBody codecs hash := by
  by_cases same : hash = block.hash crypto <;>
    simp [getBody, getCf, putBlock, putHeader, contents_putCf, contents_putTransactionIndex,
      hashSlice_inj, same, show codecs.body.decode _ = _ from sound]

section Frames

variable {db db' : Database}

theorem getLatestBlockNumber_congr (h : db.contents .metadata = db'.contents .metadata)
    : db.getLatestBlockNumber = db'.getLatestBlockNumber := by
  simp only [getLatestBlockNumber, getCf, h]

theorem getBlockHashByNumber_congr
    (h : db.contents .blockNumberToHash = db'.contents .blockNumberToHash) (number : UInt64)
    : db.getBlockHashByNumber number = db'.getBlockHashByNumber number := by
  simp only [getBlockHashByNumber, getCf, h]

theorem getHeader_congr (h : db.contents .headers = db'.contents .headers)
    (codecs : BlockCodecs) (hash : B256)
    : db.getHeader codecs hash = db'.getHeader codecs hash := by
  simp only [getHeader, getCf, h]

theorem getBody_congr (h : db.contents .bodies = db'.contents .bodies)
    (codecs : BlockCodecs) (hash : B256)
    : db.getBody codecs hash = db'.getBody codecs hash := by
  simp only [getBody, getCf, h]

theorem getGameState_congr (h : db.contents .gameState = db'.contents .gameState)
    (key : Bytes)
    : db.getGameState key = db'.getGameState key := by
  simp only [getGameState, getCf, h]

/-- Writes to one column family do not depend on the others. -/
theorem contents_putCf_congr {cf : ColumnFamily} (h : db.contents cf = db'.contents cf)
    (cf' : ColumnFamily) (key value : Bytes)
    : (db.putCf cf' key value).contents cf = (db'.putCf cf' key value).contents cf := by
  funext key'
  simp only [contents_putCf, h]

theorem contents_putBlock_congr {cf : ColumnFamily} (h : db.contents cf = db'.contents cf)
    (crypto : Crypto) (codecs : BlockCodecs) (block : Block)
    : (db.putBlock crypto codecs block).contents cf
      = (db'.putBlock crypto codecs block).contents cf := by
  have indexed (blockHash : B256) (index : Nat) (txs : List SignedTransaction)
      {left right : Database} (same : left.contents cf = right.contents cf)
      : (putTransactionIndex codecs blockHash index txs left).contents cf
        = (putTransactionIndex codecs blockHash index txs right).contents cf := by
    induction txs generalizing index left right with
    | nil => exact same
    | cons tx rest ih => exact ih _ (contents_putCf_congr same _ _ _)
  unfold putBlock putHeader
  exact indexed _ _ _
    (contents_putCf_congr (contents_putCf_congr (contents_putCf_congr h _ _ _) _ _ _) _ _ _)

/-- Storing a block only writes headers, bodies and their indexes. -/
theorem contents_putBlock_of_ne {cf : ColumnFamily} (headers : cf ≠ .headers)
    (numbers : cf ≠ .blockNumberToHash) (bodies : cf ≠ .bodies)
    (transactions : cf ≠ .transactions) {crypto : Crypto} {codecs : BlockCodecs}
    {block : Block}
    : (db.putBlock crypto codecs block).contents cf = db.contents cf := by
  unfold putBlock putHeader
  rw [contents_putTransactionIndex _ _ _ _ _ transactions, contents_putCf_of_ne bodies,
    contents_putCf_of_ne numbers, contents_putCf_of_ne headers]

/-- Storing the latest number only writes the metadata. -/
theorem contents_putLatestBlockNumber {cf : ColumnFamily} (h : cf ≠ .metadata)
    (number : UInt64) (db : Database)
    : (db.putLatestBlockNumber number).contents cf = db.contents cf :=
  contents_putCf_of_ne h _ _

end Frames

end Database

end VeloChain
