import VeloChain.Node.BodyCommitment
import VeloChain.Node.Receipts
import VeloChain.Node.Run
import VeloChain.Rpc.EthApi
import VeloChain.TxPool.PoolIndex

/-! The hash of a transaction as a key.
A received transaction brings its hash along, and nothing computes it again. Where every
transaction that comes in carries the hash of its own content, the keys of the pool and of the
receipts identify what is stored under them.
-/

namespace VeloChain

namespace SignedTransaction

/-- The hash a transaction carries is the hash of its content. -/
def CarriesOwnHash (crypto : Crypto) (tx : SignedTransaction) : Prop :=
  tx.hash = computeHash crypto tx.transaction tx.signature

/-- Two transactions with the same content, whatever hashes they carry. -/
def SameContent (left right : SignedTransaction) : Prop :=
  left.transaction = right.transaction ∧ left.signature = right.signature

/-- A transaction out of a collection, under its own hash. -/
def Genuine (crypto : Crypto) (known : Set SignedTransaction) (tx : SignedTransaction) : Prop :=
  tx ∈ known ∧ tx.CarriesOwnHash crypto

end SignedTransaction

/-- The hash tells the encodings of a collection of transactions apart, and the encodings tell
the contents apart.
-/
structure TellsApart (crypto : Crypto) (known : Set SignedTransaction) : Prop where
  messages
    : ∀ tx ∈ known, ∀ tx' ∈ known,
        crypto.keccak256 (tx.hashMessage crypto) = crypto.keccak256 (tx'.hashMessage crypto)
        → tx.hashMessage crypto = tx'.hashMessage crypto
  encodings
    : ∀ tx ∈ known, ∀ tx' ∈ known,
        tx.hashMessage crypto = tx'.hashMessage crypto → tx.SameContent tx'

/-- Two genuine transactions under one hash have one content. -/
theorem TellsApart.sameContent {crypto : Crypto} {known : Set SignedTransaction}
    (apart : TellsApart crypto known) {tx tx' : SignedTransaction}
    (genuine : tx.Genuine crypto known) (genuine' : tx'.Genuine crypto known)
    (sameHash : tx.hash = tx'.hash)
    : tx.SameContent tx' := by
  apply apart.encodings tx genuine.1 tx' genuine'.1
  apply apart.messages tx genuine.1 tx' genuine'.1
  exact genuine.2.symm.trans (sameHash.trans genuine'.2)

/-- What reaches a running node: requests over RPC, and the steps of the node itself, gossiped
transactions and blocks among them.
-/
inductive NodeInput (F : Type)
  | sendRawTransaction (data : String)
  | step (s : NodeStep F)

namespace Chain

variable {F : Type} [F32 F] (host : Host F) (codec : RequestCodec)

/-- The node after an input. -/
def receive (chain : Chain F) : NodeInput F → Chain F
  | .sendRawTransaction data =>
      { chain with
        txpool := (sendRawTransaction host.crypto codec data chain.txpool).2 }
  | .step s => chain.step host s

/-- The transactions that an input brings, those a reorganization reads back included. -/
def Brings (chain : Chain F) (tx : SignedTransaction) : NodeInput F → Prop
  | .sendRawTransaction data => codec.decode data = .ok tx
  | .step (.addTransaction gossiped) => tx = gossiped
  | .step (.importBlock block _) => tx ∈ block.body.transactions
  | .step (.reorg _ newBlocks) =>
      (∃ entry ∈ newBlocks, tx ∈ entry.1.body.transactions)
      ∨ ∃ number block,
          chain.getBlockByNumber host number = .ok (some block)
          ∧ tx ∈ block.body.transactions
  | _ => False

/-- The node after a run of inputs. -/
def receiveAll : List (NodeInput F) → Chain F → Chain F
  | [], chain => chain
  | input :: rest, chain => receiveAll rest (chain.receive host codec input)

/-- Every transaction that the inputs of a run bring is genuine when it comes in. -/
def BringsGenuine (known : Set SignedTransaction) : List (NodeInput F) → Chain F → Prop
  | [], _ => True
  | input :: rest, chain =>
      (∀ tx, chain.Brings host codec tx input → tx.Genuine host.crypto known)
      ∧ BringsGenuine known rest (chain.receive host codec input)

/-- The keys of a node stand for content: in the pool, against what can come in next, and among
the receipts of a block that is applied next.
-/
structure KeysStandForContent (known : Set SignedTransaction) (chain : Chain F) : Prop where
  keys
    : ∀ key tx, chain.txpool.byHash.lookup key = some tx →
        key = SignedTransaction.computeHash host.crypto tx.transaction tx.signature
  refuses
    : ∀ tx text, tx.Genuine host.crypto known →
        (chain.txpool.addTransaction host.crypto tx).1 = .error (.alreadyExists text) →
        ∃ pooled,
          chain.txpool.byHash.lookup tx.hash = some pooled ∧ pooled.SameContent tx
  selects
    : ∀ senders tx, tx ∈ (selectedTxs senders chain.txpool).1 → tx.Genuine host.crypto known
  drops
    : ∀ order block next, (∀ tx ∈ block.body.transactions, tx.Genuine host.crypto known) →
        chain.applyBlock host order block = (.ok (), next) →
        ∀ key pooled, chain.txpool.byHash.lookup key = some pooled →
          next.txpool.byHash.lookup key = none →
          ∃ tx ∈ block.body.transactions, pooled.SameContent tx
  receipts
    : ∀ order block (accepted : Accepted host order block chain),
        (∀ tx ∈ block.body.transactions, tx.Genuine host.crypto known) →
        ∃ txs : List SignedTransaction,
          txs.Perm block.body.transactions
          ∧ accepted.processed.receipts.map TransactionReceipt.txHash
            = txs.map SignedTransaction.hash
          ∧ ∀ tx ∈ txs, ∀ tx' ∈ txs, ¬ tx.SameContent tx' → tx.hash ≠ tx'.hash

variable {host codec}

/-- The pool of the node holds only genuine transactions. -/
def PoolGenuine (host : Host F) (known : Set SignedTransaction) (chain : Chain F) : Prop :=
  chain.txpool.Holds (SignedTransaction.Genuine host.crypto known)

variable {known : Set SignedTransaction} {chain : Chain F}

theorem PoolGenuine.applyBlock (held : chain.PoolGenuine host known) (order : BlockOrder F)
    (block : Block)
    : (chain.applyBlock host order block).2.PoolGenuine host known := by
  rcases applied : chain.applyBlock host order block with ⟨e | _, after⟩
  · obtain ⟨_, _, _, rfl⟩ := applyBlock_error applied
    exact held
  · obtain ⟨accepted, rfl⟩ := applyBlock_ok_iff.mp applied
    exact TransactionPool.Holds.removeIncluded held _

omit [F32 F] in
theorem PoolGenuine.prepareOnly (held : chain.PoolGenuine host known) (now : UInt64)
    : (chain.prepareOnly host now).PoolGenuine host known := by
  unfold Chain.prepareOnly
  split
  next => exact held
  next => exact held

/-- A step keeps the pool genuine when what it brings is genuine. -/
theorem PoolGenuine.step (held : chain.PoolGenuine host known) {s : NodeStep F}
    (brings
      : ∀ tx, chain.Brings host codec tx (.step s) → tx.Genuine host.crypto known)
    : (chain.step host s).PoolGenuine host known := by
  cases s with
  | importBlock block order => exact held.applyBlock order block
  | reorg forkPoint newBlocks =>
      refine executeReorg_invariant (PoolGenuine host known) held ?_ (fun _ _ held _ _ => held)
        (fun _ entry _ held => held.applyBlock entry.2 entry.1)
      intro state number sameDb held
      unfold revertBlock
      split
      next => exact held
      next => exact held
      next block found =>
        have stored : chain.getBlockByNumber host number = .ok (some block) := by
          unfold getBlockByNumber getBlockByHash at found ⊢
          rwa [sameDb] at found
        exact TransactionPool.Holds.addTransactions held (fun tx member =>
          brings tx (Or.inr ⟨number, block, stored, member⟩))
  | produce now senders order =>
      have prepared := held.prepareOnly now
      rcases @produceBlock_cases F _ host now senders order chain with same | ⟨block, same, _⟩
      · rwa [Chain.step, same]
      · rw [Chain.step, same]
        exact prepared.applyBlock order block
  | prepare now => exact held.prepareOnly now
  | addTransaction tx => exact TransactionPool.Holds.addTransaction held (brings tx rfl)
  | readAccount address => exact held
  | restart =>
      obtain ⟨head, frame⟩ := @restart_frame F _ host chain
      rw [Chain.step, frame]
      exact TransactionPool.holds_withMaxSize _ _

theorem PoolGenuine.receive (held : chain.PoolGenuine host known) {input : NodeInput F}
    (brings : ∀ tx, chain.Brings host codec tx input → tx.Genuine host.crypto known)
    : (chain.receive host codec input).PoolGenuine host known := by
  cases input with
  | step s => exact held.step brings
  | sendRawTransaction data =>
      rcases sendRawTransaction_pool host.crypto codec data chain.txpool
        with same | ⟨tx, decoded, added⟩
      · change (sendRawTransaction host.crypto codec data chain.txpool).2.Holds _
        rwa [same]
      · change (sendRawTransaction host.crypto codec data chain.txpool).2.Holds _
        rw [added]
        exact TransactionPool.Holds.addTransaction held (brings tx decoded)

/-- By induction on the inputs. -/
theorem PoolGenuine.receiveAll (held : chain.PoolGenuine host known)
    {inputs : List (NodeInput F)} (brings : chain.BringsGenuine host codec known inputs)
    : (chain.receiveAll host codec inputs).PoolGenuine host known := by
  induction inputs generalizing chain with
  | nil => exact held
  | cons input rest ih => exact ih (held.receive brings.1) brings.2

/-- Where the pool is genuine, every key stands for the content under it. -/
theorem PoolGenuine.keysStandForContent (held : chain.PoolGenuine host known)
    (apart : TellsApart host.crypto known)
    : KeysStandForContent host known chain where
  keys key tx found := by
    obtain ⟨rfl, genuine⟩ := held.hashed key tx found
    exact genuine.2
  refuses tx text genuine refused := by
    obtain ⟨pooled, found⟩ := Finmap.mem_iff.mp (TransactionPool.mem_of_alreadyExists refused)
    obtain ⟨sameHash, pooledGenuine⟩ := held.hashed tx.hash pooled found
    exact ⟨pooled, found, apart.sameContent pooledGenuine genuine sameHash⟩
  selects senders tx member := by
    obtain ⟨sender, nonce, found⟩ := TransactionPool.mem_getPending (selectTxs_subset member)
    exact held.queued sender nonce tx found
  drops order block next genuine applied key pooled found gone := by
    obtain ⟨accepted, rfl⟩ := applyBlock_ok_iff.mp applied
    have included
        : key ∈ block.body.transactions.map SignedTransaction.hash := by
      by_contra absent
      change (chain.txpool.removeIncluded host.crypto _).byHash.lookup key = none at gone
      rw [TransactionPool.lookup_byHash_removeIncluded, if_neg absent, found] at gone
      exact absurd gone nofun
    obtain ⟨tx, member, sameHash⟩ := List.mem_map.mp included
    obtain ⟨own, pooledGenuine⟩ := held.hashed key pooled found
    exact ⟨tx, member,
      apart.sameContent pooledGenuine (genuine tx member) (own.trans sameHash.symm)⟩
  receipts order block accepted genuine := by
    have all : (block.evmTxs ++ block.gameTxs).Perm block.body.transactions :=
      List.perm_append_comm.trans (List.filter_append_perm _ _)
    refine ⟨_, all, accepted.receipts_txHash, ?_⟩
    intro tx member tx' member' differ sameHash
    exact differ (apart.sameContent (genuine tx (all.mem_iff.mp member))
      (genuine tx' (all.mem_iff.mp member')) sameHash)

/-- In every run from an empty pool in which each transaction that is received over RPC, by
gossip or in a block carries its own hash, every key stands for the content under it.
-/
theorem keysStandForContent_run {maxSize : Nat} (empty : chain.txpool = .withMaxSize maxSize)
    (apart : TellsApart host.crypto known) {inputs : List (NodeInput F)}
    (brings : chain.BringsGenuine host codec known inputs)
    : KeysStandForContent host known (chain.receiveAll host codec inputs) := by
  have held : chain.PoolGenuine host known := by
    unfold PoolGenuine
    rw [empty]
    exact TransactionPool.holds_withMaxSize _ _
  exact (held.receiveAll brings).keysStandForContent apart

/-- A codec whose requests all carry one transaction. -/
def requestsCarrying (tx : SignedTransaction) : RequestCodec :=
  { hexDecode := fun _ => .ok [], signedTransactionFromJson := fun _ => .ok tx }

/-- The move of account 9 that another account's transaction claims to be. -/
def claimedMove : SignedTransaction := .action 9 1 0 (.move 1000 0 0)

theorem tellsApart_claimedMove : TellsApart .disclosing {claimedMove, mislabeledMove} := by
  have messages
      : ∀ tx ∈ [claimedMove, mislabeledMove], ∀ tx' ∈ [claimedMove, mislabeledMove],
          Crypto.disclosing.keccak256 (tx.hashMessage .disclosing)
            = Crypto.disclosing.keccak256 (tx'.hashMessage .disclosing)
          → tx.hashMessage .disclosing = tx'.hashMessage .disclosing := by
    decide +kernel
  have encodings
      : ∀ tx ∈ [claimedMove, mislabeledMove], ∀ tx' ∈ [claimedMove, mislabeledMove],
          tx.hashMessage .disclosing = tx'.hashMessage .disclosing
          → tx.transaction = tx'.transaction ∧ tx.signature = tx'.signature := by
    decide +kernel
  exact ⟨fun tx member tx' member' => messages tx (by simpa using member) tx'
      (by simpa using member'),
    fun tx member tx' member' => encodings tx (by simpa using member) tx'
      (by simpa using member')⟩

/-- A transaction under the hash of another one is taken into the pool, keeps the other one
out, and shares a receipt with it.
-/
theorem keysStandForContent_fails_on_claimedHash
    : let host : Host Milli := .reference []
      let chain : Chain Milli := .reference host .reference 9 0
      let after :=
        chain.receiveAll host (requestsCarrying mislabeledMove) [.sendRawTransaction "0x"]
      let block := movingBlock 0 [claimedMove, mislabeledMove]
      TellsApart host.crypto {claimedMove, mislabeledMove}
      ∧ claimedMove.CarriesOwnHash host.crypto
      ∧ after.txpool.byHash.lookup claimedMove.hash = some mislabeledMove
      ∧ (after.txpool.addTransaction host.crypto claimedMove).1
        = .error (.alreadyExists (displayHash claimedMove.hash))
      ∧ (chain.applyBlock host (.ascending Milli) block).1 = .ok ()
      ∧ ¬ claimedMove.SameContent mislabeledMove
      ∧ claimedMove.hash = mislabeledMove.hash
      ∧ ¬ KeysStandForContent host {claimedMove, mislabeledMove} after := by
  intro host chain after block
  have stored : after.txpool.byHash.lookup claimedMove.hash = some mislabeledMove := by
    decide +kernel
  refine ⟨tellsApart_claimedMove, ?_, stored, ?_, ?_, ?_, rfl, ?_⟩
  · unfold SignedTransaction.CarriesOwnHash
    decide +kernel
  · decide +kernel
  · decide +kernel
  · unfold SignedTransaction.SameContent
    decide +kernel
  · intro claimed
    have key := claimed.keys claimedMove.hash mislabeledMove stored
    exact absurd key (by decide +kernel)

theorem keysStandForContent_run_claimedMove
    : let host : Host Milli := .reference []
      let chain : Chain Milli := .reference host .reference 9 0
      KeysStandForContent host {claimedMove, mislabeledMove}
        (chain.receiveAll host (requestsCarrying claimedMove)
          [.sendRawTransaction "0x", .step (.addTransaction claimedMove)]) := by
  intro host chain
  have genuine : claimedMove.Genuine .disclosing {claimedMove, mislabeledMove} := by
    refine ⟨Or.inl rfl, ?_⟩
    unfold SignedTransaction.CarriesOwnHash
    decide +kernel
  apply @keysStandForContent_run _ _ _ _ _ _ defaultMaxPoolSize rfl tellsApart_claimedMove
  refine ⟨?_, ?_, trivial⟩
  · intro tx decoded
    obtain rfl : claimedMove = tx := Except.ok.inj decoded
    exact genuine
  · intro tx gossiped
    obtain rfl : tx = claimedMove := gossiped
    exact genuine

end Chain

end VeloChain
