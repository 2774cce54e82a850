import VeloChain.Evm.Executor

/-! A transaction semantics of value transfers, the smallest instance of `Revm`.
It checks chain id, nonce and balance like the interpreter and moves value without running
code; a rejected transaction leaves the database as it is.
-/

namespace VeloChain.Revm

/-- The gas every transfer uses. -/
def transferGas : UInt64 := 21000

/-- What a transfer costs its sender. -/
def transferCost (env : TxEnv) : Nat :=
  env.value.toNat + transferGas.toNat * env.gasPrice.toNat

/-- Take the cost and count the nonce at the sender. -/
def debit (env : TxEnv) (db : CacheDb) : CacheDb :=
  let sender := db.infoOf env.caller
  db.insertAccountInfo env.caller
    { sender with
      balance := sender.balance - BitVec.ofNat 256 (transferCost env)
      nonce := sender.nonce + 1 }

/-- Give the value to the recipient, if there is one. -/
def credit (env : TxEnv) (db : CacheDb) : CacheDb :=
  match env.transactTo with
  | none => db
  | some recipient =>
      let account := db.infoOf recipient
      db.insertAccountInfo recipient { account with balance := account.balance + env.value }

/-- The check of one transfer: chain id, nonce and balance of the sender. -/
def rejection (chainId : UInt64) (env : TxEnv) (db : CacheDb) : Option String :=
  if env.chainId ≠ some chainId then some "InvalidChainId"
  else if env.nonce ≠ some (db.infoOf env.caller).nonce then some "InvalidNonce"
  else if (db.infoOf env.caller).balance.toNat < transferCost env then
    some "LackOfFundForMaxFee"
  else none

/-- Transfers of value between accounts. -/
def transfers : Revm :=
  { transactCommit := fun chainId env db =>
      match rejection chainId env db with
      | some reason => (.error reason, db)
      | none =>
          (.ok (.success transferGas (.call []) []), credit env (debit env db)) }

end VeloChain.Revm
