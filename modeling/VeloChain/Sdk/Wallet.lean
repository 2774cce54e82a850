import VeloChain.Primitives.TransactionJson
import VeloChain.Rpc.EthApi
import VeloChain.Rpc.Session

/-! The wallet of the client SDK: transactions as JSON, their hash and their request.
JavaScript writes the properties of an object in the order in which they were created and leaves
out those that are undefined. The texts of its numbers are an argument.
-/

namespace VeloChain

open Json (ascii quoted escape unicodeEscape)

-----------------------------------------------------------------------------------------
-- JavaScript values as JSON
-----------------------------------------------------------------------------------------

/-- A JavaScript string, by its UTF-16 code units. -/
abbrev JsString := List UInt16

def JsString.ofAscii (text : String) : JsString :=
  text.toList.map (fun c => UInt16.ofNat c.toNat)

def isLeadSurrogate (unit : UInt16) : Bool := 0xD800 ≤ unit && unit < 0xDC00

def isTrailSurrogate (unit : UInt16) : Bool := 0xDC00 ≤ unit && unit < 0xE000

/-- A code unit that is not part of a pair. A lone surrogate is escaped. -/
def stringifyUnit (unit : UInt16) : Bytes :=
  if isLeadSurrogate unit || isTrailSurrogate unit then unicodeEscape unit.toNat
  else (escape unit.toNat).getD (String.utf8EncodeChar (Char.ofNat unit.toNat))

/-- The content of a string between its quotes. -/
def stringifyString : JsString → Bytes
  | [] => []
  | [unit] => stringifyUnit unit
  | unit :: next :: rest =>
      if isLeadSurrogate unit && isTrailSurrogate next then
        String.utf8EncodeChar
            (Char.ofNat (0x10000 + (unit.toNat - 0xD800) * 0x400 + (next.toNat - 0xDC00)))
          ++ stringifyString rest
      else stringifyUnit unit ++ stringifyString (next :: rest)

/-- An object, by the order in which its properties were created. -/
def stringifyObject {K : Type} (name : K → String) (property : K → Option Json)
    (order : List K)
    : Json :=
  .object (order.filterMap (fun key =>
    (property key).map (fun value => (ascii (name key), value))))

-----------------------------------------------------------------------------------------
-- Transactions of the SDK
-----------------------------------------------------------------------------------------

/-- Transaction type identifiers. -/
inductive SdkTxType
  | legacy
  | accessList
  | dynamicFee
  | gameAction
  deriving DecidableEq

def SdkTxType.number : SdkTxType → Nat
  | .legacy => 0
  | .accessList => 1
  | .dynamicFee => 2
  | .gameAction => 100

/-- Game action types, over the numbers of the language. -/
inductive SdkGameAction (N : Type)
  | move (x y z : N)
  | attack (targetEntityId : N)
  | interact (targetEntityId : N)
  | placeBlock (x y z blockType : N)
  | breakBlock (x y z : N)
  | craft (recipeId : N)
  | chat (message : JsString)
  | respawn

/-- The property names of game actions. -/
inductive ActionKey
  | type
  | x
  | y
  | z
  | targetEntityId
  | blockType
  | recipeId
  | message
  deriving DecidableEq

def ActionKey.name : ActionKey → String
  | .type => "type"
  | .x => "x"
  | .y => "y"
  | .z => "z"
  | .targetEntityId => "target_entity_id"
  | .blockType => "block_type"
  | .recipeId => "recipe_id"
  | .message => "message"

/-- The property names of transactions. -/
inductive TransactionKey
  | txType
  | chainId
  | nonce
  | gasPrice
  | maxFeePerGas
  | maxPriorityFeePerGas
  | gasLimit
  | «to»
  | value
  | input
  | gameAction
  deriving DecidableEq

def TransactionKey.name : TransactionKey → String
  | .txType => "tx_type"
  | .chainId => "chain_id"
  | .nonce => "nonce"
  | .gasPrice => "gas_price"
  | .maxFeePerGas => "max_fee_per_gas"
  | .maxPriorityFeePerGas => "max_priority_fee_per_gas"
  | .gasLimit => "gas_limit"
  | .to => "to"
  | .value => "value"
  | .input => "input"
  | .gameAction => "game_action"

/-- A game action object: the action, and the order of its properties. -/
structure SdkActionObject (N : Type) where
  action : SdkGameAction N
  order : List ActionKey
  nodup : order.Nodup
  complete : ∀ key, key ∈ order

/-- Unsigned transaction data. -/
structure SdkTransaction (N : Type) where
  txType : SdkTxType
  chainId : N
  nonce : N
  gasPrice : Option JsString
  maxFeePerGas : Option JsString
  maxPriorityFeePerGas : Option JsString
  gasLimit : N
  «to» : Option JsString
  value : JsString
  input : JsString
  gameAction : Option (SdkActionObject N)
  order : List TransactionKey
  nodup : order.Nodup
  complete : ∀ key, key ∈ order

variable {N : Type} (numberText : N → Bytes)

/-- The properties of a game action. -/
def SdkGameAction.property (action : SdkGameAction N) : ActionKey → Option Json :=
  let tag (name : String) := some (Json.string (ascii name))
  let number (n : N) := some (Json.number (numberText n))
  match action with
  | .move x y z => fun
      | .type => tag "move"
      | .x => number x
      | .y => number y
      | .z => number z
      | _ => none
  | .attack targetEntityId => fun
      | .type => tag "attack"
      | .targetEntityId => number targetEntityId
      | _ => none
  | .interact targetEntityId => fun
      | .type => tag "interact"
      | .targetEntityId => number targetEntityId
      | _ => none
  | .placeBlock x y z blockType => fun
      | .type => tag "placeBlock"
      | .x => number x
      | .y => number y
      | .z => number z
      | .blockType => number blockType
      | _ => none
  | .breakBlock x y z => fun
      | .type => tag "breakBlock"
      | .x => number x
      | .y => number y
      | .z => number z
      | _ => none
  | .craft recipeId => fun
      | .type => tag "craft"
      | .recipeId => number recipeId
      | _ => none
  | .chat message => fun
      | .type => tag "chat"
      | .message => some (.string (stringifyString message))
      | _ => none
  | .respawn => fun
      | .type => tag "respawn"
      | _ => none

def SdkActionObject.toJson (object : SdkActionObject N) : Json :=
  stringifyObject ActionKey.name (object.action.property numberText) object.order

/-- The properties of a transaction. -/
def SdkTransaction.property (tx : SdkTransaction N) : TransactionKey → Option Json
  | .txType => some (.number (Json.decimal tx.txType.number))
  | .chainId => some (.number (numberText tx.chainId))
  | .nonce => some (.number (numberText tx.nonce))
  | .gasPrice => tx.gasPrice.map (fun price => .string (stringifyString price))
  | .maxFeePerGas => tx.maxFeePerGas.map (fun fee => .string (stringifyString fee))
  | .maxPriorityFeePerGas =>
      tx.maxPriorityFeePerGas.map (fun fee => .string (stringifyString fee))
  | .gasLimit => some (.number (numberText tx.gasLimit))
  | .to => tx.to.map (fun recipient => .string (stringifyString recipient))
  | .value => some (.string (stringifyString tx.value))
  | .input => some (.string (stringifyString tx.input))
  | .gameAction => tx.gameAction.map (SdkActionObject.toJson numberText)

def SdkTransaction.toJson (tx : SdkTransaction N) : Json :=
  stringifyObject TransactionKey.name (tx.property numberText) tx.order

/-- `JSON.stringify` of a transaction, as bytes: what the wallet hashes and signs. -/
def SdkTransaction.signingBytes (tx : SdkTransaction N) : Bytes := (tx.toJson numberText).render

-----------------------------------------------------------------------------------------
-- The wallet
-----------------------------------------------------------------------------------------

/-- A signature of the SDK. -/
structure SdkSignature where
  r : Bytes
  s : Bytes

/-- The text of a byte string: `0x` and its bytes in hexadecimal. -/
def SdkSignature.word (bytes : Bytes) : Json := .string (ascii ("0x" ++ hexEncode bytes))

def SdkSignature.toJson (signature : SdkSignature) : Json :=
  .object
    [ (ascii "v", .number (Json.decimal 0)), (ascii "r", word signature.r)
    , (ascii "s", word signature.s) ]

structure Wallet where
  privateKey : Bytes

namespace Wallet

variable (keccak256 : Bytes → Bytes)

/-- Sign a message hash. -/
def sign (hash : Bytes) (wallet : Wallet) : SdkSignature :=
  let k := keccak256 (wallet.privateKey ++ hash)
  let r := keccak256 (k ++ hash)
  { r, s := keccak256 (wallet.privateKey ++ r) }

/-- Sign a transaction and return the hex-encoded signed transaction. -/
def signTransaction (tx : SdkTransaction N) (wallet : Wallet) : String :=
  let signature := wallet.sign keccak256 (keccak256 (tx.signingBytes numberText))
  let hash := keccak256 (tx.signingBytes numberText ++ signature.toJson.render)
  let signed :=
    Json.object
      [ (ascii "transaction", tx.toJson numberText), (ascii "signature", signature.toJson)
      , (ascii "hash", SdkSignature.word hash) ]
  "0x" ++ hexEncode signed.render

/-- The transaction that carries a game action. -/
def gameActionTransaction [OfNat N 100000] (chainId nonce : N) (action : SdkActionObject N)
    : SdkTransaction N :=
  { txType := .gameAction
    chainId
    nonce
    gasPrice := some (.ofAscii "1000000000")
    maxFeePerGas := none
    maxPriorityFeePerGas := none
    gasLimit := 100000
    «to» := none
    value := .ofAscii "0"
    input := .ofAscii ""
    gameAction := some action
    order :=
      [ .txType, .chainId, .nonce, .gasPrice, .gasLimit, .value, .input, .gameAction
      , .maxFeePerGas, .maxPriorityFeePerGas, .to ]
    nodup := by decide
    complete := by intro key; cases key <;> decide }

/-- Create a signed game action transaction. -/
def createGameAction [OfNat N 100000] (chainId nonce : N) (action : SdkActionObject N)
    (wallet : Wallet) : String :=
  wallet.signTransaction numberText keccak256 (gameActionTransaction chainId nonce action)

end Wallet

end VeloChain
