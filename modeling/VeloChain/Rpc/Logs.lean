import VeloChain.Node.Chain
import VeloChain.Primitives.Keystore
import VeloChain.Rpc.EthApi

/-! Logs over the Ethereum API: the filter, the range and what is read of stored receipts.
Receipts are stored as JSON by the node and read back as JSON values.
-/

namespace VeloChain

-----------------------------------------------------------------------------------------
-- Stored receipts as JSON
-----------------------------------------------------------------------------------------

def SerdeValue.asArray : SerdeValue → Option (List SerdeValue)
  | .array items => some items
  | _ => none

/-- A log as it is stored; its data is an array of numbers. -/
def ReceiptLog.toJson (log : ReceiptLog) : SerdeValue :=
  .object
    [ ("address", .string (debugAddress log.address))
    , ("topics", .array (log.topics.map (fun topic => .string (displayHash topic))))
    , ("data", .array (log.data.map (fun byte => .number (toString byte.toNat)))) ]

def TransactionReceipt.toJson (receipt : TransactionReceipt) : SerdeValue :=
  .object
    [ ("tx_hash", .string (displayHash receipt.txHash))
    , ("block_number", .number (toString receipt.blockNumber.toNat))
    , ("block_hash", .string (displayHash receipt.blockHash))
    , ("index", .number (toString receipt.index.toNat))
    , ("success", .bool receipt.success)
    , ("gas_used", .number (toString receipt.gasUsed.toNat))
    , ("cumulative_gas_used", .number (toString receipt.cumulativeGasUsed.toNat))
    , ("contract_address",
        (receipt.contractAddress.map (fun a => .string (debugAddress a))).getD .null)
    , ("logs", .array (receipt.logs.map ReceiptLog.toJson)) ]

-----------------------------------------------------------------------------------------
-- Parameters of a request
-----------------------------------------------------------------------------------------

/-- Log filter for eth_getLogs. -/
structure LogFilter where
  fromBlock : Option String
  toBlock : Option String
  address : Option String
  topics : Option (List (Option String))

/-- A log entry returned by eth_getLogs. -/
structure RpcLog where
  address : String
  topics : List String
  data : String
  blockNumber : String
  blockHash : String
  transactionHash : String
  transactionIndex : String
  logIndex : String
  deriving DecidableEq

/-- The value of a JSON text, and the texts of decoding errors. -/
structure LogFormat where
  fromSlice : Bytes → Option SerdeValue
  fromHexError : FromHexError → String

/-- A text without the prefix of hexadecimal numbers. -/
def strip0x (text : String) : String :=
  match text.toList with
  | '0' :: 'x' :: rest => String.ofList rest
  | _ => text

def parseAddress (format : LogFormat) (text : String) : Except ErrorObject Address :=
  match hexDecode (strip0x text) with
  | .error e => .error (invalidParams s!"Invalid address hex: {format.fromHexError e}")
  | .ok bytes =>
      if bytes.length ≠ 20 then
        .error (invalidParams s!"Address must be 20 bytes, got {bytes.length}")
      else .ok (BitVec.ofNat 160 (Bytes.toNat bytes))

/-- Digits behind those of the number `n`. -/
def u64Digits (n : Nat) : Bytes → Except String UInt64
  | [] => .ok (UInt64.ofNat n)
  | c :: rest =>
      match hexValue c with
      | none => .error "invalid digit found in string"
      | some digit =>
          let n := n * 16 + digit.toNat
          if n < 2 ^ 64 then u64Digits n rest
          else .error "number too large to fit in target type"

/-- A number in hexadecimal digits, behind a plus sign if there is one. -/
def u64FromHex (text : String) : Except String UInt64 :=
  match utf8 text with
  | [] => .error "cannot parse integer from empty string"
  | [c] => u64Digits 0 [c]
  | c :: rest => if c = 43 then u64Digits 0 rest else u64Digits 0 (c :: rest)

def parseU64Hex (text : String) : Except ErrorObject UInt64 :=
  let s := strip0x text
  if s = "" ∨ s = "0" then .ok 0
  else
    match u64FromHex s with
    | .error e => .error (invalidParams s!"Invalid u64 hex: {e}")
    | .ok n => .ok n

-----------------------------------------------------------------------------------------
-- The logs of a range
-----------------------------------------------------------------------------------------

/-- A number in lower-case hexadecimal digits, behind its prefix. -/
def lowerHex (n : Nat) : String := "0x" ++ String.ofList (Nat.toDigits 16 n)

/-- Block numbers from the first to the last one. -/
def blockNumbers (first last : UInt64) : List UInt64 :=
  (List.range' first.toNat (last.toNat + 1 - first.toNat)).map UInt64.ofNat

/-- What a log entry says of its place. -/
structure LogPlace where
  blockNumber : UInt64
  blockHash : B256
  txHash : B256
  txIndex : Nat

/-- The entry of a stored log, unless the address is another one. -/
def rpcLog (filterAddr : Option Address) (place : LogPlace) (logIdx : Nat) (log : SerdeValue)
    : Option RpcLog :=
  let logAddr := (log.index "address").asStr.getD ""
  if filterAddr.any (fun fa => logAddr != debugAddress fa) then none
  else
    some
      { address := logAddr
        topics :=
          ((log.index "topics").asArray.map (List.filterMap SerdeValue.asStr)).getD []
        data := (log.index "data").asStr.getD "0x"
        blockNumber := lowerHex place.blockNumber.toNat
        blockHash := displayHash place.blockHash
        transactionHash := displayHash place.txHash
        transactionIndex := lowerHex place.txIndex
        logIndex := lowerHex logIdx }

section GetLogs

variable (codecs : BlockCodecs) (format : LogFormat) (db : Database)

/-- The entries of one transaction, from its stored receipt. -/
def txLogs (filterAddr : Option Address) (place : LogPlace) : List RpcLog :=
  match db.getReceipt place.txHash with
  | none => []
  | some receiptData =>
      match format.fromSlice receiptData with
      | none => []
      | some stored =>
          match (stored.index "logs").asArray with
          | none => []
          | some storedLogs =>
              storedLogs.zipIdx.filterMap (fun (log, logIdx) =>
                rpcLog filterAddr place logIdx log)

def storageErr (e : StorageError) : ErrorObject := internalErr s!"Storage error: {e}"

/-- The entries of one block. -/
def blockLogs (filterAddr : Option Address) (blockNum : UInt64)
    : Except ErrorObject (List RpcLog) :=
  match db.getBlockHashByNumber blockNum with
  | .error e => .error (storageErr e)
  | .ok none => .ok []
  | .ok (some blockHash) =>
      match db.getBody codecs blockHash with
      | .error e => .error (storageErr e)
      | .ok none => .ok []
      | .ok (some body) =>
          .ok (body.transactions.zipIdx.flatMap (fun (tx, txIndex) =>
            txLogs format db filterAddr
              { blockNumber := blockNum, blockHash, txHash := tx.hash, txIndex }))

/-- The entries of blocks one after another, up to the first error. -/
def rangeLogs (filterAddr : Option Address) : List UInt64 → Except ErrorObject (List RpcLog)
  | [] => .ok []
  | blockNum :: rest =>
      match blockLogs codecs format db filterAddr blockNum with
      | .error e => .error e
      | .ok logs =>
          match rangeLogs filterAddr rest with
          | .error e => .error e
          | .ok later => .ok (logs ++ later)

/-- Get the logs of a range of at most 1001 blocks. The topics of the filter are not read. -/
def getLogs (filter : LogFilter) : Except ErrorObject (List RpcLog) :=
  match parseU64Hex (filter.fromBlock.getD "0x0") with
  | .error e => .error e
  | .ok fromBlock =>
      match db.getLatestBlockNumber with
      | .error e => .error (storageErr e)
      | .ok latest =>
          let toBlock :=
            match parseU64Hex (filter.toBlock.getD "latest") with
            | .error _ => latest.getD 0
            | .ok number => number
          match filter.address.mapM (parseAddress format) with
          | .error e => .error e
          | .ok filterAddr =>
              rangeLogs codecs format db filterAddr
                (blockNumbers fromBlock (min toBlock (fromBlock + 1000)))

end GetLogs

end VeloChain
