import VeloChain.Lib.Bytes

/-! Data types of blocks, transactions and accounts.
Fixed-width integers of inputs are `UInt64` and `BitVec`; a nonce counts transactions and an
entity id counts spawned entities, both are unbounded naturals here.
-/

namespace VeloChain

/-- A 20-byte account address. -/
abbrev Address := BitVec 160

/-- A 32-byte hash. -/
abbrev B256 := BitVec 256

/-- A 256-bit unsigned integer; its operators wrap around. -/
abbrev U256 := BitVec 256

abbrev U128 := BitVec 128

abbrev EntityId := Nat

theorem Address.toNat_injective : Function.Injective (BitVec.toNat : Address → Nat) :=
  fun _ _ => BitVec.eq_of_toNat_eq

/-- The bytes of an address, in order. -/
def addressSlice (address : Address) : Bytes := Bytes.bigEndian 20 address.toNat

/-- The bytes of a hash, in order. -/
def hashSlice (hash : B256) : Bytes := Bytes.bigEndian 32 hash.toNat

/-- The hash holding the given 32 bytes. -/
def hashFromSlice (bytes : Bytes) : B256 := BitVec.ofNat 256 bytes.toNat

@[simp]
theorem length_addressSlice (address : Address) : (addressSlice address).length = 20 :=
  Bytes.length_bigEndian _ _

@[simp]
theorem length_hashSlice (hash : B256) : (hashSlice hash).length = 32 :=
  Bytes.length_bigEndian _ _

/-- A hash is read back from its bytes. -/
@[simp]
theorem hashFromSlice_hashSlice (hash : B256) : hashFromSlice (hashSlice hash) = hash := by
  unfold hashFromSlice hashSlice
  rw [Bytes.toNat_bigEndian, Nat.mod_eq_of_lt (by simpa using hash.isLt),
    BitVec.ofNat_toNat, BitVec.setWidth_eq]

theorem hashSlice_inj {left right : B256} : hashSlice left = hashSlice right ↔ left = right :=
  ⟨fun h => by rw [← hashFromSlice_hashSlice left, h, hashFromSlice_hashSlice],
    congrArg hashSlice⟩

theorem addressSlice_inj {left right : Address}
    : addressSlice left = addressSlice right ↔ left = right := by
  refine ⟨fun h => ?_, congrArg addressSlice⟩
  exact BitVec.eq_of_toNat_eq
    (Bytes.bigEndian_inj (by simpa using left.isLt) (by simpa using right.isLt) h)

/-- A lower-case hexadecimal digit. -/
def hexDigit (n : Nat) : Char :=
  if n < 10 then Char.ofNat (48 + n) else Char.ofNat (87 + n)

/-- Bytes in hexadecimal, without a prefix. -/
def hexEncode (bytes : Bytes) : String :=
  String.ofList (bytes.flatMap
    (fun byte => [hexDigit (byte.toNat / 16), hexDigit (byte.toNat % 16)]))

/-- The text of a byte string: `0x` and its bytes in hexadecimal. -/
def hexText (bytes : Bytes) : String :=
  "0x" ++ String.ofList (bytes.flatMap
    (fun byte => [hexDigit (byte.toNat / 16), hexDigit (byte.toNat % 16)]))

/-- The `Debug` text of an address. -/
def debugAddress (address : Address) : String := hexText (addressSlice address)

/-- The text of a hash. -/
def displayHash (hash : B256) : String := hexText (hashSlice hash)

inductive TxType
  | legacy
  | accessList
  | dynamicFee
  | gameAction
  deriving DecidableEq

/-- Game-specific action types that can be embedded in transactions. -/
inductive GameAction
  | move (x y z : Int64)
  | attack (targetEntityId : EntityId)
  | interact (targetEntityId : EntityId)
  | placeBlock (x y z : Int32) (blockType : UInt16)
  | breakBlock (x y z : Int32)
  | craft (recipeId : UInt32)
  | chat (message : String)
  | respawn
  deriving DecidableEq

/-- Core transaction data (unsigned). -/
structure Transaction where
  txType : TxType
  chainId : UInt64
  nonce : Nat
  gasPrice : Option U128
  maxFeePerGas : Option U128
  maxPriorityFeePerGas : Option U128
  gasLimit : UInt64
  «to» : Option Address
  value : U256
  input : Bytes
  gameAction : Option GameAction
  deriving DecidableEq

/-- ECDSA signature with its recovery id `v`. -/
structure Signature where
  v : UInt64
  r : U256
  s : U256
  deriving DecidableEq

/-- A signed transaction with its cached hash. -/
structure SignedTransaction where
  transaction : Transaction
  signature : Signature
  hash : B256
  deriving DecidableEq

namespace SignedTransaction

/-- Check if this is a game action transaction. -/
def isGameAction (tx : SignedTransaction) : Bool := tx.transaction.txType == .gameAction

/-- The game action of a transaction, if it carries one. -/
def gameAction (tx : SignedTransaction) : Option GameAction := tx.transaction.gameAction

end SignedTransaction

/-- Block header containing metadata about a block. -/
structure BlockHeader where
  parentHash : B256
  ommersHash : B256
  beneficiary : Address
  stateRoot : B256
  transactionsRoot : B256
  receiptsRoot : B256
  gameStateRoot : B256
  logsBloom : BitVec 2048
  difficulty : U256
  number : UInt64
  gasLimit : UInt64
  gasUsed : UInt64
  timestamp : UInt64
  gameTick : UInt64
  extraData : Bytes
  mixHash : B256
  nonce : BitVec 64
  baseFeePerGas : Option UInt64
  deriving DecidableEq

/-- Block body containing transactions. -/
structure BlockBody where
  transactions : List SignedTransaction
  deriving DecidableEq

/-- A complete block: header + body. -/
structure Block where
  header : BlockHeader
  body : BlockBody
  deriving DecidableEq

/-- Create a new block. -/
def Block.new (header : BlockHeader) (transactions : List SignedTransaction) : Block :=
  { header, body := { transactions } }

/-- Block number. -/
def Block.number (block : Block) : UInt64 := block.header.number

/-- An account as the world state stores it. -/
structure Account where
  nonce : Nat
  balance : U256
  codeHash : B256
  storageRoot : B256
  deriving DecidableEq

/-- The account of an address nothing was stored for. -/
def Account.default : Account := { nonce := 0, balance := 0, codeHash := 0, storageRoot := 0 }

/-- Create a new account with the given balance. -/
def Account.withBalance (balance : U256) : Account := { Account.default with balance }

def defaultBlockGasLimit : UInt64 := 30000000

end VeloChain
