import VeloChain.TxPool.Pool

/-! Transactions that arrive over the Ethereum API.
The hexadecimal and JSON decoders come from other libraries.
-/

namespace VeloChain

/-- The decoders of the hex and serde_json libraries that a request goes through. -/
structure RequestCodec where
  hexDecode : String → Except String Bytes
  signedTransactionFromJson : Bytes → Except String SignedTransaction

/-- The error object of a JSON-RPC response. -/
structure ErrorObject where
  code : Int
  message : String
  deriving DecidableEq

def internalErr (message : String) : ErrorObject := { code := -32000, message }

def invalidParams (message : String) : ErrorObject := { code := -32602, message }

namespace RequestCodec

/-- Decode the JSON-encoded signed transaction of a request. -/
def decode (codec : RequestCodec) (data : String) : Except ErrorObject SignedTransaction :=
  let hexData := if data.startsWith "0x" then (data.drop 2).toString else data
  match codec.hexDecode hexData with
  | .error e => .error (invalidParams s!"Invalid hex data: {e}")
  | .ok txBytes =>
      match codec.signedTransactionFromJson txBytes with
      | .error e => .error (invalidParams s!"Invalid transaction encoding: {e}")
      | .ok tx => .ok tx

end RequestCodec

/-- Take a signed transaction into the pool. Its sender is recovered; the hash is the one it
claims.
-/
def sendRawTransaction (crypto : Crypto) (codec : RequestCodec) (data : String)
    (pool : TransactionPool) : Except ErrorObject String × TransactionPool :=
  match codec.decode data with
  | .error e => (.error e, pool)
  | .ok tx =>
      match tx.sender crypto with
      | .error e => (.error (invalidParams s!"Invalid signature: {e}"), pool)
      | .ok _ =>
          match pool.addTransaction crypto tx with
          | (.error e, pool) => (.error (internalErr s!"TxPool error: {e}"), pool)
          | (.ok _, pool) => (.ok (displayHash tx.hash), pool)

/-- A request leaves the pool as it is, or adds the transaction that it decodes to. -/
theorem sendRawTransaction_pool (crypto : Crypto) (codec : RequestCodec) (data : String)
    (pool : TransactionPool)
    : (sendRawTransaction crypto codec data pool).2 = pool
      ∨ ∃ tx,
          codec.decode data = .ok tx
          ∧ (sendRawTransaction crypto codec data pool).2
            = (pool.addTransaction crypto tx).2 := by
  unfold sendRawTransaction
  cases decoded : codec.decode data with
  | error e => exact Or.inl rfl
  | ok tx =>
      cases recovered : tx.sender crypto with
      | error e =>
          left
          simp only [recovered]
      | ok sender =>
          refine Or.inr ⟨tx, rfl, ?_⟩
          rcases added : pool.addTransaction crypto tx with ⟨_ | _, after⟩ <;>
            simp only [recovered, added]

end VeloChain
