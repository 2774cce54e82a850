import VeloChain.Lib.Rlp
import VeloChain.Primitives.Crypto

/-! Header encoding and block hashes. -/

namespace VeloChain

namespace BlockHeader

/-- The encodings of the header fields in order; the base fee is present only when set.
The extra data is a vector of bytes, which is encoded as a list of integers.
-/
def fieldEncodings (header : BlockHeader) : List Bytes :=
  [ Bytes.rlpString (hashSlice header.parentHash)
  , Bytes.rlpString (hashSlice header.ommersHash)
  , Bytes.rlpString (addressSlice header.beneficiary)
  , Bytes.rlpString (hashSlice header.stateRoot)
  , Bytes.rlpString (hashSlice header.transactionsRoot)
  , Bytes.rlpString (hashSlice header.receiptsRoot)
  , Bytes.rlpString (hashSlice header.gameStateRoot)
  , Bytes.rlpString (Bytes.bigEndian 256 header.logsBloom.toNat)
  , Bytes.rlpUint header.difficulty.toNat
  , Bytes.rlpUint header.number.toNat
  , Bytes.rlpUint header.gasLimit.toNat
  , Bytes.rlpUint header.gasUsed.toNat
  , Bytes.rlpUint header.timestamp.toNat
  , Bytes.rlpUint header.gameTick.toNat
  , Bytes.rlpList (header.extraData.map (fun byte => Bytes.rlpUint byte.toNat))
  , Bytes.rlpString (hashSlice header.mixHash)
  , Bytes.rlpString (Bytes.bigEndian 8 header.nonce.toNat) ]
  ++ (header.baseFeePerGas.map (fun fee => Bytes.rlpUint fee.toNat)).toList

/-- The length of the fields, added up without encoding them. -/
def rlpPayloadLength (header : BlockHeader) : Nat :=
  Bytes.rlpStringLength (hashSlice header.parentHash)
  + Bytes.rlpStringLength (hashSlice header.ommersHash)
  + Bytes.rlpStringLength (addressSlice header.beneficiary)
  + Bytes.rlpStringLength (hashSlice header.stateRoot)
  + Bytes.rlpStringLength (hashSlice header.transactionsRoot)
  + Bytes.rlpStringLength (hashSlice header.receiptsRoot)
  + Bytes.rlpStringLength (hashSlice header.gameStateRoot)
  + Bytes.rlpStringLength (Bytes.bigEndian 256 header.logsBloom.toNat)
  + Bytes.rlpUintLength header.difficulty.toNat
  + Bytes.rlpUintLength header.number.toNat
  + Bytes.rlpUintLength header.gasLimit.toNat
  + Bytes.rlpUintLength header.gasUsed.toNat
  + Bytes.rlpUintLength header.timestamp.toNat
  + Bytes.rlpUintLength header.gameTick.toNat
  + Bytes.rlpListLength (header.extraData.map (fun byte => Bytes.rlpUintLength byte.toNat))
  + Bytes.rlpStringLength (hashSlice header.mixHash)
  + Bytes.rlpStringLength (Bytes.bigEndian 8 header.nonce.toNat)
  + (header.baseFeePerGas.map (fun fee => Bytes.rlpUintLength fee.toNat)).getD 0

/-- The RLP encoding of a header: a list prefix and the fields. -/
def encode (header : BlockHeader) : Bytes :=
  Bytes.rlpPrefix 0xC0 header.rlpPayloadLength ++ header.fieldEncodings.flatten

/-- The length of the encoding, without encoding. -/
def length (header : BlockHeader) : Nat :=
  header.rlpPayloadLength + Bytes.lengthOfLength header.rlpPayloadLength

/-- Compute the hash of this block header using RLP encoding. -/
def hash (crypto : Crypto) (header : BlockHeader) : B256 := crypto.keccak256 header.encode

/-- Create a genesis block header. -/
def genesis (gameStateRoot : B256) : BlockHeader :=
  { parentHash := 0
    ommersHash := 0
    beneficiary := 0
    stateRoot := 0
    transactionsRoot := 0
    receiptsRoot := 0
    gameStateRoot
    logsBloom := 0
    difficulty := 1
    number := 0
    gasLimit := defaultBlockGasLimit
    gasUsed := 0
    timestamp := 0
    gameTick := 0
    extraData := []
    mixHash := 0
    nonce := 0
    baseFeePerGas := some 1000000000 }

end BlockHeader

namespace Block

/-- Hash of this block (hash of the header). -/
def hash (crypto : Crypto) (block : Block) : B256 := block.header.hash crypto

/-- Compute the transactions root hash (the hash of the ordered transaction hashes). -/
def computeTransactionsRoot (crypto : Crypto) (block : Block) : B256 :=
  crypto.keccak256 (block.body.transactions.flatMap (fun tx => hashSlice tx.hash))

end Block

end VeloChain
