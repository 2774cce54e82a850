import VeloChain.Rpc.Logs

/-! Blocks and receipts over the Ethereum API.
Blocks are asked for by number, by hash or as the latest one, receipts by the hash of their
transaction; numbers and hashes go in and out as hexadecimal texts.
-/

namespace VeloChain

-----------------------------------------------------------------------------------------
-- Blocks
-----------------------------------------------------------------------------------------

/-- A block returned by RPC. -/
structure RpcBlock where
  number : String
  hash : String
  parentHash : String
  timestamp : String
  gasLimit : String
  gasUsed : String
  beneficiary : String
  stateRoot : String
  transactionsRoot : String
  receiptsRoot : String
  gameTick : UInt64
  gameStateRoot : String
  difficulty : String
  transactions : List String
  deriving DecidableEq

def RpcBlock.fromBlock (crypto : Crypto) (header : BlockHeader) (body : BlockBody) : RpcBlock :=
  { number := lowerHex header.number.toNat
    hash := displayHash (header.hash crypto)
    parentHash := displayHash header.parentHash
    timestamp := lowerHex header.timestamp.toNat
    gasLimit := lowerHex header.gasLimit.toNat
    gasUsed := lowerHex header.gasUsed.toNat
    beneficiary := debugAddress header.beneficiary
    stateRoot := displayHash header.stateRoot
    transactionsRoot := displayHash header.transactionsRoot
    receiptsRoot := displayHash header.receiptsRoot
    gameTick := header.gameTick
    gameStateRoot := displayHash header.gameStateRoot
    difficulty := lowerHex header.difficulty.toNat
    transactions := body.transactions.map (fun tx => displayHash tx.hash) }

section EthApi

variable (crypto : Crypto) (codecs : BlockCodecs) (format : LogFormat) (db : Database)

/-- The number of the latest block. -/
def latestNumber : Except ErrorObject UInt64 :=
  match db.getLatestBlockNumber with
  | .error e => .error (storageErr e)
  | .ok number => .ok (number.getD 0)

/-- `eth_blockNumber`. -/
def ethBlockNumber : Except ErrorObject String :=
  match latestNumber db with
  | .error e => .error e
  | .ok number => .ok (lowerHex number.toNat)

/-- The block of a hash; a body that is missing is shown as empty. -/
def rpcBlockOf (hash : B256) : Except ErrorObject (Option RpcBlock) :=
  match db.getHeader codecs hash with
  | .error e => .error (storageErr e)
  | .ok none => .ok none
  | .ok (some header) =>
      match db.getBody codecs hash with
      | .error e => .error (storageErr e)
      | .ok body =>
          .ok (some (.fromBlock crypto header (body.getD { transactions := [] })))

/-- `eth_getBlockByNumber`. -/
def ethGetBlockByNumber (number : String) : Except ErrorObject (Option RpcBlock) :=
  let blockNum :=
    if number = "latest" then latestNumber db
    else
      match u64FromHex (strip0x number) with
      | .error e => .error (invalidParams s!"Invalid block number: {e}")
      | .ok n => .ok n
  match blockNum with
  | .error e => .error e
  | .ok blockNum =>
      match db.getBlockHashByNumber blockNum with
      | .error e => .error (storageErr e)
      | .ok none => .ok none
      | .ok (some hash) => rpcBlockOf crypto codecs db hash

/-- A hash of a request. -/
def parseHash (hash : String) : Except ErrorObject B256 :=
  match hexDecode (strip0x hash) with
  | .error e => .error (invalidParams s!"Invalid hash: {format.fromHexError e}")
  | .ok hashBytes =>
      if hashBytes.length ≠ 32 then .error (invalidParams "Hash must be 32 bytes")
      else .ok (hashFromSlice hashBytes)

/-- `eth_getBlockByHash`. -/
def ethGetBlockByHash (hash : String) : Except ErrorObject (Option RpcBlock) :=
  match parseHash format hash with
  | .error e => .error e
  | .ok hash => rpcBlockOf crypto codecs db hash

-----------------------------------------------------------------------------------------
-- Receipts
-----------------------------------------------------------------------------------------

/-- A transaction receipt returned by RPC. -/
structure RpcReceipt where
  transactionHash : String
  blockNumber : String
  blockHash : String
  transactionIndex : String
  success : Bool
  gasUsed : String
  cumulativeGasUsed : String
  contractAddress : Option String
  logs : List SerdeValue

/-- A text without all the prefixes of hexadecimal numbers at its start. -/
def trimStart0x : List Char → List Char
  | '0' :: 'x' :: rest => trimStart0x rest
  | text => text

/-- A number of at most 64 bits. -/
def SerdeValue.asU64 : SerdeValue → Option UInt64
  | .number text =>
      let n := Nat.ofDigitChars 10 text.toList 0
      if text.toList.all Char.isDigit ∧ n < 2 ^ 64 then some (.ofNat n) else none
  | _ => none

def SerdeValue.asBool : SerdeValue → Option Bool
  | .bool value => some value
  | _ => none

/-- What is read of a stored receipt. A member that is missing or of another type has a default. -/
def RpcReceipt.fromStored (stored : SerdeValue) : RpcReceipt :=
  let hash (key : String) :=
    "0x" ++ String.ofList (trimStart0x ((stored.index key).asStr.getD "").toList)
  let number (key : String) := lowerHex ((stored.index key).asU64.getD 0).toNat
  { transactionHash := hash "tx_hash"
    blockNumber := number "block_number"
    blockHash := hash "block_hash"
    transactionIndex := number "index"
    success := (stored.index "success").asBool.getD false
    gasUsed := number "gas_used"
    cumulativeGasUsed := number "cumulative_gas_used"
    contractAddress := (stored.index "contract_address").asStr
    logs := (stored.index "logs").asArray.getD [] }

/-- `eth_getTransactionReceipt`. A stored receipt that is not JSON is an error. -/
def ethGetTransactionReceipt (decodeError : Bytes → String) (hash : String)
    : Except ErrorObject (Option RpcReceipt) :=
  match parseHash format hash with
  | .error e => .error e
  | .ok txHash =>
      match db.getReceipt txHash with
      | none => .ok none
      | some data =>
          match format.fromSlice data with
          | none => .error (internalErr s!"Receipt decode: {decodeError data}")
          | some stored => .ok (some (.fromStored stored))

end EthApi

end VeloChain
