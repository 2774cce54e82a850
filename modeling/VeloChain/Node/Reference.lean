import VeloChain.Evm.Transfers
import VeloChain.Node.Chain

/-! A host for evaluation, with every library function replaced by a small one. -/

namespace VeloChain.Host

/-- A host whose block formats know the given blocks. -/
def reference (blocks : List Block) : Host Milli :=
  { crypto := .disclosing
    blocks :=
      { header := .ofTable (blocks.map Block.header)
        body := .ofTable (blocks.map Block.body)
        txIndex :=
          { encode := fun entry =>
              hashSlice entry.blockHash ++ Bytes.bigEndian 4 entry.index.toNat
            decode := fun bytes =>
              .ok
                { blockHash := hashFromSlice (bytes.take 32)
                  index := UInt32.ofNat (Bytes.toNat (bytes.drop 32)) } } }
    account := Account.wordCodec
    ecs := .idsOnly
    receiptJson := fun receipt => [if receipt.success then 1 else 0]
    revm := .transfers }

end VeloChain.Host

namespace VeloChain

/-- Walks in ascending order of the keys. -/
def TickOrder.ascending (F : Type) : TickOrder F :=
  .uniform (FinMap.ascending id Function.injective_id)

/-- Walks in ascending order of the keys. -/
def BlockOrder.ascending (F : Type) : BlockOrder F :=
  { tick := .ascending F
    persist := FinMap.ascending id Function.injective_id
    evmAccounts := FinMap.ascending BitVec.toNat Address.toNat_injective
    dirtyAccounts := FinMap.ascending BitVec.toNat Address.toNat_injective }

/-- A transaction signed with a secret key of the reference host. -/
def Transaction.signedWith (secret : B256) (tx : Transaction) : SignedTransaction :=
  let signature : Signature := { v := 0, r := secret, s := 0 }
  { transaction := tx, signature, hash := SignedTransaction.computeHash .disclosing tx signature }

/-- A game action of the account of a secret key. -/
def SignedTransaction.action (secret : B256) (chainId : UInt64) (nonce : Nat)
    (action : GameAction) : SignedTransaction :=
  Transaction.signedWith secret
    { txType := .gameAction
      chainId
      nonce
      gasPrice := none
      maxFeePerGas := none
      maxPriorityFeePerGas := none
      gasLimit := 21000
      «to» := none
      value := 0
      input := []
      gameAction := some action }

/-- A transfer from the account of a secret key, without a price for gas. -/
def SignedTransaction.transfer (secret : B256) (chainId : UInt64) (nonce : Nat)
    (recipient : Address) (value : U256) : SignedTransaction :=
  Transaction.signedWith secret
    { txType := .legacy
      chainId
      nonce
      gasPrice := some 0
      maxFeePerGas := none
      maxPriorityFeePerGas := none
      gasLimit := 21000
      «to» := some recipient
      value
      input := []
      gameAction := none }

/-- An unsealed block of the given transactions on top of a header. -/
def Block.following (parent : BlockHeader) (txs : List SignedTransaction) : Block :=
  Block.new
    { BlockHeader.genesis 0 with
      parentHash := parent.hash .disclosing
      number := parent.number + 1
      timestamp := parent.timestamp + 1
      gameTick := parent.gameTick + 1 }
    txs

/-- The validator of secret key 7, which is its address as well. -/
def Keypair.reference : Keypair := { signingKey := 7, address := 7 }

/-- A world without entities. -/
def GameWorld.reference : GameWorld Milli :=
  { ecs := .new
    currentTick := 0
    seed := 0
    spawnManager := { spawnPoints := [], archetypes := [] }
    eventManager := .new }

namespace Chain

/-- A chain over the given world with one account and one validator, on top of a genesis
block.
-/
def reference (host : Host Milli) (world : GameWorld Milli) (address : Address)
    (balance : U256) : Chain Milli :=
  let state := WorldState.new.putAccount address (Account.withBalance balance)
  let (_, state, db) :=
    state.commit host.account .empty host.crypto.keccak256
      (BlockOrder.ascending Milli).dirtyAccounts
  (Chain.new db state world .new
    (.newWithKeypair .reference [7] { period := 1 }) 1).initGenesis host (.genesis 0)

end Chain

end VeloChain
