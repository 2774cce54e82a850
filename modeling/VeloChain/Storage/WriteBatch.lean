import VeloChain.Storage.RocksDb

/-! Batched writes: operations are collected and applied to the database by one commit. A batch
is applied in order and as a whole, so committing it leaves what the same operations on the
database leave.
-/

namespace VeloChain

open Mirroring

/-- One entry of a RocksDB write batch. -/
inductive BatchEntry
  | put (cfName : String) (key value : Bytes)
  | delete (cfName : String) (key : Bytes)
  deriving DecidableEq

/-- What an entry does to the database. -/
def BatchEntry.run : BatchEntry → RocksDb → RocksDb
  | .put cfName key value, db => db.update cfName key (some value)
  | .delete cfName key, db => db.update cfName key none

/-- A batch of write operations, and the database it is tied to. -/
structure WriteBatchOps where
  batch : List BatchEntry
  db : RocksDb
  opCount : Nat

namespace WriteBatchOps

/-- Create a new write batch tied to the given database. -/
def new (db : RocksDb) : WriteBatchOps := { batch := [], db, opCount := 0 }

/-- Add an entry to the batch. -/
def push (entry : BatchEntry) (ops : WriteBatchOps) : WriteBatchOps :=
  { ops with batch := ops.batch ++ [entry], opCount := ops.opCount + 1 }

/-- Put a raw key-value pair into a column family. -/
def putCf (cfName : String) (key value : Bytes) : Step WriteError WriteBatchOps := fun ops =>
  if cfName ∈ ops.db.families then (.ok (), ops.push (.put cfName key value))
  else (.error (columnFamilyNotFound cfName), ops)

/-- Delete a key from a column family. -/
def deleteCf (cfName : String) (key : Bytes) : Step WriteError WriteBatchOps := fun ops =>
  if cfName ∈ ops.db.families then (.ok (), ops.push (.delete cfName key))
  else (.error (columnFamilyNotFound cfName), ops)

section Blocks

variable (crypto : Crypto) (encoders : BlockEncoders)

/-- Add a block header to the batch. -/
def putHeader (hash : B256) (header : BlockHeader) : Step WriteError WriteBatchOps :=
  withEncoded (encoders.header header) (fun encoded =>
    andThen (putCf ColumnFamily.headers.name (hashSlice hash) encoded)
      (putCf ColumnFamily.blockNumberToHash.name (Database.numberKey header.number)
        (hashSlice hash)))

/-- Index one transaction of a block. -/
def putTxIndex (blockHash : B256) (entry : SignedTransaction × Nat)
    : Step WriteError WriteBatchOps :=
  withEncoded (encoders.txIndex { blockHash, index := UInt32.ofNat entry.2 })
    (putCf ColumnFamily.transactions.name (hashSlice entry.1.hash))

/-- Add a complete block to the batch: header, body and transaction index. -/
def putBlock (block : Block) : Step WriteError WriteBatchOps :=
  let hash := block.hash crypto
  andThen (putHeader encoders hash block.header)
    (withEncoded (encoders.body block.body) (fun encoded =>
      andThen (putCf ColumnFamily.bodies.name (hashSlice hash) encoded)
        (Loop.run (putTxIndex encoders hash) block.body.transactions.zipIdx)))

/-- Add a receipt to the batch. -/
def putReceipt (txHash : B256) (receiptData : Bytes) : Step WriteError WriteBatchOps :=
  putCf ColumnFamily.receipts.name (hashSlice txHash) receiptData

/-- Add metadata to the batch. -/
def putMeta (key : String) (value : Bytes) : Step WriteError WriteBatchOps :=
  putCf ColumnFamily.metadata.name key.toUTF8.toList value

end Blocks

/-- Commit the batch to the database: all entries, in order. -/
def commit (ops : WriteBatchOps) : RocksDb :=
  ops.batch.foldl (fun db entry => entry.run db) ops.db

end WriteBatchOps

/-- The write operations that database and batch have in common. -/
inductive WriteOp
  | putBlock (block : Block)
  | putHeader (hash : B256) (header : BlockHeader)
  | putReceipt (txHash : B256) (receiptData : Bytes)
  | putMeta (key : String) (value : Bytes)
  | putCf (cfName : String) (key value : Bytes)
  | deleteCf (cfName : String) (key : Bytes)

section Operations

variable (crypto : Crypto) (encoders : BlockEncoders)

/-- The operation on the database. -/
def WriteOp.direct : WriteOp → Step WriteError RocksDb
  | .putBlock block => RocksDb.putBlock crypto encoders block
  | .putHeader hash header => RocksDb.putHeader encoders hash header
  | .putReceipt txHash receiptData => RocksDb.putReceipt txHash receiptData
  | .putMeta key value => RocksDb.putMeta key value
  | .putCf cfName key value => RocksDb.putCf cfName key value
  | .deleteCf cfName key => RocksDb.deleteCf cfName key

/-- The operation on a batch. -/
def WriteOp.batched : WriteOp → Step WriteError WriteBatchOps
  | .putBlock block => WriteBatchOps.putBlock crypto encoders block
  | .putHeader hash header => WriteBatchOps.putHeader encoders hash header
  | .putReceipt txHash receiptData => WriteBatchOps.putReceipt txHash receiptData
  | .putMeta key value => WriteBatchOps.putMeta key value
  | .putCf cfName key value => WriteBatchOps.putCf cfName key value
  | .deleteCf cfName key => WriteBatchOps.deleteCf cfName key

end Operations

namespace WriteBatchOps

-----------------------------------------------------------------------------------------
-- Batch and database in step
-----------------------------------------------------------------------------------------

/-- The batch is tied to `start`, counts its entries and would leave `direct`, which has the
same column families open.
-/
structure Pending (start direct : RocksDb) (ops : WriteBatchOps) : Prop where
  db : ops.db = start
  families : direct.families = start.families
  commit : ops.commit = direct
  opCount : ops.opCount = ops.batch.length

variable {start : RocksDb}

theorem commit_push (entry : BatchEntry) (ops : WriteBatchOps)
    : (ops.push entry).commit = entry.run ops.commit := by
  rw [WriteBatchOps.commit, push, List.foldl_append]
  rfl

theorem Pending.push {direct : RocksDb} {ops : WriteBatchOps} (pending : Pending start direct ops)
    (entry : BatchEntry)
    : Pending start (entry.run direct) (ops.push entry) := by
  refine ⟨pending.db, ?_, ?_, ?_⟩
  · cases entry <;> exact pending.families
  · rw [commit_push, pending.commit]
  · rw [WriteBatchOps.push, List.length_append, pending.opCount]
    rfl

theorem mirrors_putCf (cfName : String) (key value : Bytes)
    : Mirrors (Pending start) (RocksDb.putCf cfName key value) (putCf cfName key value) := by
  intro direct ops pending
  unfold RocksDb.putCf putCf
  rw [pending.db, pending.families]
  split
  next => exact ⟨rfl, pending.push (.put cfName key value)⟩
  next => exact ⟨rfl, pending⟩

theorem mirrors_deleteCf (cfName : String) (key : Bytes)
    : Mirrors (Pending start) (RocksDb.deleteCf cfName key) (deleteCf cfName key) := by
  intro direct ops pending
  unfold RocksDb.deleteCf deleteCf
  rw [pending.db, pending.families]
  split
  next => exact ⟨rfl, pending.push (.delete cfName key)⟩
  next => exact ⟨rfl, pending⟩

theorem mirrors_withEncoded {encoded : Except String Bytes}
    {write : Bytes → Step WriteError RocksDb} {write' : Bytes → Step WriteError WriteBatchOps}
    (mirrors : ∀ data, Mirrors (Pending start) (write data) (write' data))
    : Mirrors (Pending start) (withEncoded encoded write) (withEncoded encoded write') := by
  cases encoded with
  | error e => exact .fail _
  | ok data => exact mirrors data

section Blocks

variable (crypto : Crypto) (encoders : BlockEncoders)

theorem mirrors_putHeader (hash : B256) (header : BlockHeader)
    : Mirrors (Pending start) (RocksDb.putHeader encoders hash header)
        (putHeader encoders hash header) :=
  mirrors_withEncoded fun _ => (mirrors_putCf _ _ _).andThen (mirrors_putCf _ _ _)

theorem mirrors_putTxIndex (blockHash : B256) (entry : SignedTransaction × Nat)
    : Mirrors (Pending start) (RocksDb.putTxIndex encoders blockHash entry)
        (putTxIndex encoders blockHash entry) :=
  mirrors_withEncoded fun _ => mirrors_putCf _ _ _

theorem mirrors_putBlock (block : Block)
    : Mirrors (Pending start) (RocksDb.putBlock crypto encoders block)
        (putBlock crypto encoders block) :=
  (mirrors_putHeader encoders _ _).andThen
    (mirrors_withEncoded fun _ =>
      (mirrors_putCf _ _ _).andThen (.loop (mirrors_putTxIndex encoders _) _))

/-- Each operation replies alike on both and keeps them in step. -/
theorem mirrors_op (op : WriteOp)
    : Mirrors (Pending start) (op.direct crypto encoders) (op.batched crypto encoders) := by
  cases op with
  | putBlock block => exact mirrors_putBlock crypto encoders block
  | putHeader hash header => exact mirrors_putHeader encoders hash header
  | putReceipt txHash receiptData => exact mirrors_putCf _ _ _
  | putMeta key value => exact mirrors_putCf _ _ _
  | putCf cfName key value => exact mirrors_putCf _ _ _
  | deleteCf cfName key => exact mirrors_deleteCf _ _

end Blocks

/-- For every database and every sequence of operations: the batch replies to each of them as
the database does, before the commit the database is as it was, and the commit leaves in every
column family what the operations on the database leave.
-/
theorem writeBatch_eq_direct (crypto : Crypto) (encoders : BlockEncoders) (db : RocksDb)
    (ops : List WriteOp)
    : let direct := runAll (WriteOp.direct crypto encoders) ops db
      let batched := runAll (WriteOp.batched crypto encoders) ops (new db)
      batched.1 = direct.1
        ∧ batched.2.commit = direct.2
        ∧ ∀ n, (runAll (WriteOp.batched crypto encoders) (ops.take n) (new db)).2.db = db := by
  have inStep (ops : List WriteOp)
      : (runAll (WriteOp.direct crypto encoders) ops db).1
          = (runAll (WriteOp.batched crypto encoders) ops (new db)).1
        ∧ Pending db (runAll (WriteOp.direct crypto encoders) ops db).2
            (runAll (WriteOp.batched crypto encoders) ops (new db)).2 :=
    Mirrors.runAll (mirrors_op crypto encoders) ⟨rfl, rfl, rfl, rfl⟩
  exact ⟨(inStep ops).1.symm, (inStep ops).2.commit, fun n => (inStep (ops.take n)).2.db⟩

end WriteBatchOps

end VeloChain
