import VeloChain.Lib.CommitPoint
import VeloChain.State.WorldState

/-! The single writes behind the operations of the database.
An operation that writes several keys puts them one after the other, so a process can stop
between any two of them.
-/

namespace VeloChain

/-- One write of the database. -/
structure Put where
  cf : ColumnFamily
  key : Bytes
  value : Bytes
  deriving DecidableEq

/-- Write one value. -/
def Put.run (put : Put) (db : Database) : Database := db.putCf put.cf put.key put.value

namespace Database

/-- The database after a log of writes. -/
abbrev replay (log : List Put) (db : Database) : Database := CommitPoint.replay Put.run log db

/-- The value that a log writes last under a key. -/
def lastValue (log : List Put) (cf : ColumnFamily) (key : Bytes) : Option Bytes :=
  log.foldl (fun last put => if cf = put.cf ∧ key = put.key then some put.value else last) none

/-- A log leaves under every key what it writes there last, and else what was there. -/
theorem contents_replay (log : List Put) (db : Database) (cf : ColumnFamily) (key : Bytes)
    : (db.replay log).contents cf key = (lastValue log cf key).or (db.contents cf key) := by
  induction log using List.reverseRecOn with
  | nil => rfl
  | append_singleton log put ih =>
      rw [replay, CommitPoint.replay_append, lastValue, List.foldl_append]
      change (put.run (db.replay log)).contents cf key
        = (if cf = put.cf ∧ key = put.key then some put.value
            else lastValue log cf key).or (db.contents cf key)
      rw [Put.run, contents_putCf]
      split
      next => rfl
      next => exact ih

/-- The database already has what a log writes last under each key. -/
def AlreadyHolds (log : List Put) (db : Database) : Prop :=
  ∀ cf key value, lastValue log cf key = some value → db.contents cf key = some value

/-- A log leaves the database unchanged exactly when this already has what it writes. -/
theorem replay_eq_self_iff {log : List Put} {db : Database}
    : db.replay log = db ↔ db.AlreadyHolds log := by
  constructor
  · intro same cf key value last
    rw [← same, contents_replay, last]
    rfl
  · intro holds
    ext1
    funext cf key
    rw [contents_replay]
    cases last : lastValue log cf key with
    | none => rfl
    | some value => exact (holds cf key value last).symm

section Blocks

variable (crypto : Crypto) (codecs : BlockCodecs)

/-- The writes of a header and of its number. -/
def headerPuts (hash : B256) (header : BlockHeader) : List Put :=
  [ { cf := .headers, key := hashSlice hash, value := codecs.header.encode header }
  , { cf := .blockNumberToHash, key := numberKey header.number, value := hashSlice hash } ]

/-- The writes of the transaction index from position `index` on. -/
def transactionPuts (blockHash : B256) : Nat → List SignedTransaction → List Put
  | _, [] => []
  | index, tx :: rest =>
      { cf := .transactions
        key := hashSlice tx.hash
        value := codecs.txIndex.encode { blockHash, index := UInt32.ofNat index } }
      :: transactionPuts blockHash (index + 1) rest

/-- The writes of a block: header, number, body and transaction index. -/
def blockPuts (block : Block) : List Put :=
  let hash := block.hash crypto
  headerPuts codecs hash block.header
  ++ { cf := .bodies, key := hashSlice hash, value := codecs.body.encode block.body }
    :: transactionPuts codecs hash 0 block.body.transactions

/-- The write of the latest block number. -/
def latestPut (number : UInt64) : Put :=
  { cf := .metadata
    key := latestBlockNumberKey
    value := Bytes.bigEndian 8 number.toNat }

theorem replay_transactionPuts (blockHash : B256) (index : Nat)
    (transactions : List SignedTransaction) (db : Database)
    : db.replay (transactionPuts codecs blockHash index transactions)
      = putTransactionIndex codecs blockHash index transactions db := by
  induction transactions generalizing index db with
  | nil => rfl
  | cons tx rest ih => exact ih (index + 1) _

theorem replay_blockPuts (block : Block) (db : Database)
    : db.replay (blockPuts crypto codecs block) = db.putBlock crypto codecs block := by
  rw [blockPuts, replay, CommitPoint.replay_append, CommitPoint.replay_cons]
  exact replay_transactionPuts codecs _ 0 block.body.transactions _

theorem cf_transactionPuts {blockHash : B256} {index : Nat}
    {transactions : List SignedTransaction} {put : Put}
    (member : put ∈ transactionPuts codecs blockHash index transactions)
    : put.cf = .transactions := by
  induction transactions generalizing index with
  | nil => cases member
  | cons tx rest ih =>
      rcases List.mem_cons.mp member with rfl | later
      · rfl
      · exact ih later

end Blocks

end Database

namespace WorldState

variable (codec : Codec Account)

/-- The writes of a commit, in the order the uncommitted accounts are drained. -/
def accountPuts (dirty : FinMap Address Account) (addresses : List Address) : List Put :=
  addresses.filterMap (fun address =>
    (dirty.lookup address).map (fun account =>
      { cf := .gameState, key := addressSlice address, value := codec.encode account }))

theorem replay_accountPuts (dirty : FinMap Address Account) (addresses : List Address)
    (db : Database)
    : db.replay (accountPuts codec dirty addresses) = writeAccounts codec dirty addresses db := by
  induction addresses generalizing db with
  | nil => rfl
  | cons address rest ih =>
      rw [writeAccounts, ← ih, accountPuts, List.filterMap_cons]
      cases dirty.lookup address <;> rfl

theorem mem_accountPuts {dirty : FinMap Address Account} {addresses : List Address} {put : Put}
    : put ∈ accountPuts codec dirty addresses
      ↔ ∃ address ∈ addresses, ∃ account,
          dirty.lookup address = some account
          ∧ put
            = { cf := .gameState
                key := addressSlice address
                value := codec.encode account } := by
  simp only [accountPuts, List.mem_filterMap, Option.map_eq_some_iff, @eq_comm _ _ put]

end WorldState

end VeloChain
