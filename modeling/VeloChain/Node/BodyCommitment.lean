import VeloChain.Node.Acceptance
import VeloChain.Node.Lockstep
import VeloChain.Node.Reference

/-! What a header says about the body of its block.
Block application does not look at the transactions root, so a header that is accepted at all is
accepted with different bodies. Where a body does match the root, and its transactions carry
their own hashes, the header determines the body, and with it the accounts and the game world.
-/

namespace VeloChain

/-- The bytes whose hash is the transactions root. -/
def BlockBody.rootMessage (body : BlockBody) : Bytes :=
  body.transactions.flatMap (fun tx => hashSlice tx.hash)

/-- The bytes whose hash is the hash of a transaction. -/
def SignedTransaction.hashMessage (crypto : Crypto) (tx : SignedTransaction) : Bytes :=
  crypto.transactionJson tx.transaction ++ crypto.signatureJson tx.signature

/-- The body of the block matches its header, and its transactions carry their own hashes. -/
structure Block.Committed (crypto : Crypto) (block : Block) : Prop where
  root : block.header.transactionsRoot = block.computeTransactionsRoot crypto
  hashes
    : ∀ tx ∈ block.body.transactions,
        tx.hash = SignedTransaction.computeHash crypto tx.transaction tx.signature

/-- Different messages of the two bodies have different hashes, and different transactions
have different encodings.
-/
structure CollisionFree (crypto : Crypto) (left right : BlockBody) : Prop where
  roots
    : crypto.keccak256 left.rootMessage = crypto.keccak256 right.rootMessage
      → left.rootMessage = right.rootMessage
  txs
    : ∀ tx ∈ left.transactions, ∀ tx' ∈ right.transactions,
        crypto.keccak256 (tx.hashMessage crypto) = crypto.keccak256 (tx'.hashMessage crypto)
        → tx.hashMessage crypto = tx'.hashMessage crypto
  encodings
    : ∀ tx ∈ left.transactions, ∀ tx' ∈ right.transactions,
        tx.hashMessage crypto = tx'.hashMessage crypto
        → tx.transaction = tx'.transaction ∧ tx.signature = tx'.signature

/-- Transactions that carry their own hashes are the same when the hashes are. -/
theorem CollisionFree.transactions {crypto : Crypto} {left right : Block}
    (free : CollisionFree crypto left.body right.body) (isLeft : left.Committed crypto)
    (isRight : right.Committed crypto)
    (same
      : left.body.transactions.map SignedTransaction.hash
        = right.body.transactions.map SignedTransaction.hash)
    : left.body.transactions = right.body.transactions := by
  have pair
      : ∀ tx ∈ left.body.transactions, ∀ tx' ∈ right.body.transactions,
          tx.hash = tx'.hash → tx = tx' := by
    intro tx member tx' member' sameHash
    have sameOwn := sameHash
    rw [isLeft.hashes tx member, isRight.hashes tx' member'] at sameOwn
    have messages := free.txs tx member tx' member' sameOwn
    obtain ⟨transaction, signature⟩ := free.encodings tx member tx' member' messages
    cases tx
    cases tx'
    simp_all
  generalize left.body.transactions = leftTxs at same pair
  generalize right.body.transactions = rightTxs at same pair
  induction leftTxs generalizing rightTxs with
  | nil => exact (List.map_eq_nil_iff.mp same.symm).symm
  | cons tx rest ih =>
      cases rightTxs with
      | nil => simp at same
      | cons tx' rest' =>
          rw [List.map_cons, List.map_cons, List.cons.injEq] at same
          rw [pair tx List.mem_cons_self tx' List.mem_cons_self same.1,
            ih rest' same.2 (fun a ha b hb =>
              pair a (List.mem_cons_of_mem tx ha) b (List.mem_cons_of_mem tx' hb))]

/-- Two committed blocks with one header have one body. -/
theorem CollisionFree.body {crypto : Crypto} {left right : Block}
    (free : CollisionFree crypto left.body right.body) (isLeft : left.Committed crypto)
    (isRight : right.Committed crypto) (sameHeader : left.header = right.header)
    : left.body = right.body := by
  have sameRoot
      : crypto.keccak256 left.body.rootMessage = crypto.keccak256 right.body.rootMessage := by
    have leftRoot := isLeft.root
    rw [sameHeader, isRight.root] at leftRoot
    exact leftRoot.symm
  have messages := free.roots sameRoot
  have hashes
      : (left.body.transactions.map SignedTransaction.hash).flatMap hashSlice
        = (right.body.transactions.map SignedTransaction.hash).flatMap hashSlice := by
    rw [List.flatMap_map, List.flatMap_map]
    exact messages
  have transactions := free.transactions isLeft isRight
    (Bytes.flatMap_inj (by decide) length_hashSlice (fun _ _ => hashSlice_inj.mp) hashes)
  exact congrArg BlockBody.mk transactions

namespace Chain

variable {F : Type} [F32 F] {host : Host F}

/-- One block, accepted from one state, gives the same accounts and the same game world in
every order of the walks.
-/
theorem applyBlock_orders (sound : host.account.RoundTrips) {chain : Chain F} {block : Block}
    (readable : (chain.accounts host).Readable) (wellformed : chain.gameWorld.ecs.Wellformed)
    {order order' : BlockOrder F} {next next' : Chain F}
    (applied : chain.applyBlock host order block = (.ok (), next))
    (applied' : chain.applyBlock host order' block = (.ok (), next'))
    : next.accounts host = next'.accounts host ∧ next.gameWorld = next'.gameWorld := by
  obtain ⟨accepted, rfl⟩ := applyBlock_ok_iff.mp applied
  obtain ⟨accepted', rfl⟩ := applyBlock_ok_iff.mp applied'
  refine ⟨?_, ?_⟩
  · rw [accepted.accounts_result sound readable, accepted'.accounts_result sound readable]
  · exact accepted.world_eq accepted' rfl wellformed

/-- Two accepted blocks with one header whose bodies match it carry the same transactions,
and lead to the same accounts and the same game world in every order of the walks.
-/
theorem committed_body_determines (sound : host.account.RoundTrips) {chain : Chain F}
    (readable : (chain.accounts host).Readable) (wellformed : chain.gameWorld.ecs.Wellformed)
    {left right : Block} (sameHeader : left.header = right.header)
    (isLeft : left.Committed host.crypto) (isRight : right.Committed host.crypto)
    (free : CollisionFree host.crypto left.body right.body) {order order' : BlockOrder F}
    {next next' : Chain F} (applied : chain.applyBlock host order left = (.ok (), next))
    (applied' : chain.applyBlock host order' right = (.ok (), next'))
    : left.body.transactions = right.body.transactions
      ∧ next.accounts host = next'.accounts host
      ∧ next.gameWorld = next'.gameWorld := by
  have sameBody := free.body isLeft isRight sameHeader
  have same : left = right := by
    cases left
    cases right
    simp_all
  subst same
  exact ⟨rfl, applyBlock_orders sound readable wellformed applied applied'⟩

-----------------------------------------------------------------------------------------
-- Every body of a header
-----------------------------------------------------------------------------------------

/-- Accepted from one state, in whatever order of the walks, the two blocks carry the same
transactions and lead to the same accounts and the same game world.
-/
def BodyDetermined (host : Host F) (chain : Chain F) (left right : Block) : Prop :=
  ∀ (order order' : BlockOrder F) (next next' : Chain F),
    chain.applyBlock host order left = (.ok (), next)
    → chain.applyBlock host order' right = (.ok (), next')
    → left.body.transactions = right.body.transactions
      ∧ next.accounts host = next'.accounts host
      ∧ next.gameWorld = next'.gameWorld

/-- The header passes the checks against the head of the chain. -/
def Follows (host : Host F) (chain : Chain F) (header : BlockHeader) : Prop :=
  ∃ parent,
    chain.head = some parent
    ∧ chain.consensus.verifyBlock host.crypto (Block.new header []) parent = .ok ()

/-- The chain lets the transaction through: its sender can be recovered and read, and its action,
if it has one, is admitted.
-/
def LetsThrough (host : Host F) (chain : Chain F) (tx : SignedTransaction) : Prop :=
  SenderReadable host.crypto (chain.accounts host) tx
  ∧ chain.gameWorld.ecs.roster.Admits ((Partition.payloads host.crypto [tx]).map Payload.entry)

omit [F32 F] in
/-- The checks of a block look at its header only. -/
theorem follows_iff {chain : Chain F} {block : Block}
    : (∃ parent,
        chain.head = some parent
        ∧ chain.consensus.verifyBlock host.crypto block parent = .ok ())
      ↔ chain.Follows host block.header :=
  Iff.rfl

theorem accepts_empty_iff (order : BlockOrder F) {chain : Chain F} {header : BlockHeader}
    : (∃ next, chain.applyBlock host order (Block.new header []) = (.ok (), next))
      ↔ chain.Follows host header := by
  rw [applyBlock_accepts_iff, follows_iff]
  constructor
  · exact fun accepts => accepts.1
  · intro follows
    exact ⟨follows, by simp [Block.new], trivial⟩

theorem accepts_single_iff (order : BlockOrder F) {chain : Chain F} {header : BlockHeader}
    {tx : SignedTransaction}
    : (∃ next, chain.applyBlock host order (Block.new header [tx]) = (.ok (), next))
      ↔ chain.Follows host header ∧ chain.LetsThrough host tx := by
  rw [applyBlock_accepts_iff, follows_iff]
  simp only [Block.new, List.mem_singleton, forall_eq, AdmitsActions, gameEntries, LetsThrough]

/-- The first transaction of an accepted block is let through on its own. -/
theorem letsThrough_of_accepts {order : BlockOrder F} {chain next : Chain F} {block : Block}
    (applied : chain.applyBlock host order block = (.ok (), next))
    {tx : SignedTransaction} {rest : List SignedTransaction}
    (carries : block.body.transactions = tx :: rest)
    : chain.Follows host block.header ∧ chain.LetsThrough host tx := by
  obtain ⟨follows, readable, admits⟩ := applyBlock_accepts_iff.mp ⟨next, applied⟩
  refine ⟨follows_iff.mp follows, readable tx (carries ▸ List.mem_cons_self), ?_⟩
  have entries : gameEntries host.crypto block
      = (Partition.payloads host.crypto [tx]).map Payload.entry
        ++ (Partition.payloads host.crypto rest).map Payload.entry := by
    rw [gameEntries, carries, Partition.payloads, ← List.singleton_append, List.filterMap_append,
      List.map_append]
    rfl
  rw [AdmitsActions, entries] at admits
  exact Roster.Admits.of_append admits

/-- A header determines the body of its blocks exactly if no block with a transaction is accepted
under it: it fails the checks against the head, or the chain lets no transaction through at all.
What is not checked would be enough: blocks whose bodies match the header are determined.
-/
theorem body_commitment_iff (sound : host.account.RoundTrips) {chain : Chain F}
    (readable : (chain.accounts host).Readable) (wellformed : chain.gameWorld.ecs.Wellformed)
    (header : BlockHeader)
    : ((∀ left right : Block,
          left.header = header
          → right.header = header
          → chain.BodyDetermined host left right)
        ↔ ¬ chain.Follows host header ∨ ∀ tx, ¬ chain.LetsThrough host tx)
      ∧ ∀ left right : Block,
          left.header = header
          → right.header = header
          → left.Committed host.crypto
          → right.Committed host.crypto
          → CollisionFree host.crypto left.body right.body
          → chain.BodyDetermined host left right := by
  refine ⟨⟨fun determined => ?_, fun refused => ?_⟩, ?_⟩
  · by_contra! accepts
    obtain ⟨follows, tx, takes⟩ := accepts
    obtain ⟨order⟩ := @BlockOrder.nonempty F
    obtain ⟨next, empty⟩ := (accepts_empty_iff order).mpr follows
    obtain ⟨next', single⟩ := (accepts_single_iff order).mpr ⟨follows, takes⟩
    have same := (determined _ _ rfl rfl order order next next' empty single).1
    exact absurd same (List.cons_ne_nil tx []).symm
  · intro left right isLeft isRight order order' next next' applied applied'
    have bodiless {block : Block} {order : BlockOrder F} {next : Chain F}
        (isBlock : block.header = header)
        (applied : chain.applyBlock host order block = (.ok (), next))
        : block = Block.new header [] := by
      obtain ⟨blockHeader, ⟨_ | ⟨tx, rest⟩⟩⟩ := block
      · exact congrArg (Block.new · []) isBlock
      · obtain ⟨follows, takes⟩ := letsThrough_of_accepts applied rfl
        rcases refused with unrelated | none
        · exact absurd (isBlock ▸ follows) unrelated
        · exact absurd takes (none tx)
    obtain rfl := bodiless isLeft applied
    obtain rfl := bodiless isRight applied'
    exact ⟨rfl, applyBlock_orders sound readable wellformed applied applied'⟩
  · intro left right isLeft isRight committed committed' free order order' next next' applied
      applied'
    exact committed_body_determines sound readable wellformed (isLeft.trans isRight.symm)
      committed committed' free applied applied'

/-- A block in which the account of key 9 moves, under a given transactions root. -/
def movingBlock (root : B256) (txs : List SignedTransaction) : Block :=
  let block := Block.following (.genesis 0) txs
  { block with header := { block.header with transactionsRoot := root } }

/-- A move of the account of key 8 that claims another hash than its own. -/
def mislabeledMove : SignedTransaction :=
  { SignedTransaction.action 8 1 0 (.move 1000 0 0) with hash := 9 }

/-- One header is accepted with an empty body and with a move, so it does not determine the
body; and it does not either where the bodies match its root by transactions that claim other
hashes than their own.
-/
theorem header_accepted_with_two_bodies
    : (¬ ∀ (host : Host Milli) (order : BlockOrder Milli) (chain next next' : Chain Milli)
            (left right : Block),
          left.header = right.header
          → CollisionFree host.crypto left.body right.body
          → chain.applyBlock host order left = (.ok (), next)
          → chain.applyBlock host order right = (.ok (), next')
          → left.body.transactions = right.body.transactions)
      ∧ ¬ ∀ (host : Host Milli) (order : BlockOrder Milli) (chain next next' : Chain Milli)
            (left right : Block),
          left.header = right.header
          → CollisionFree host.crypto left.body right.body
          → left.header.transactionsRoot = left.computeTransactionsRoot host.crypto
          → right.header.transactionsRoot = right.computeTransactionsRoot host.crypto
          → chain.applyBlock host order left = (.ok (), next)
          → chain.applyBlock host order right = (.ok (), next')
          → left.body.transactions = right.body.transactions := by
  let host : Host Milli := .reference []
  let order : BlockOrder Milli := .ascending Milli
  let chain : Chain Milli := .reference host .reference 9 0
  let move := SignedTransaction.action 9 1 0 (.move 1000 0 0)
  constructor
  · intro claimed
    have same := claimed host order chain _ _ (movingBlock 0 []) (movingBlock 0 [move]) rfl
      ⟨by decide +kernel, by decide +kernel, by decide +kernel⟩
      (Loop.eq_of_ok (by decide +kernel)) (Loop.eq_of_ok (by decide +kernel))
    exact absurd same (by decide)
  · intro claimed
    have same := claimed host order chain _ _ (movingBlock 9 [move])
      (movingBlock 9 [mislabeledMove]) rfl
      ⟨by decide +kernel, by decide +kernel, by decide +kernel⟩
      (by decide +kernel) (by decide +kernel)
      (Loop.eq_of_ok (by decide +kernel)) (Loop.eq_of_ok (by decide +kernel))
    exact absurd same (by decide +kernel)

theorem body_commitment_iff_move
    : let host : Host Milli := .reference []
      let chain : Chain Milli := .reference host .reference 9 0
      ((∀ left right : Block,
          left.header = (movingBlock 9 []).header
          → right.header = (movingBlock 9 []).header
          → chain.BodyDetermined host left right)
        ↔ ¬ chain.Follows host (movingBlock 9 []).header ∨ ∀ tx, ¬ chain.LetsThrough host tx)
      ∧ ∀ left right : Block,
          left.header = (movingBlock 9 []).header
          → right.header = (movingBlock 9 []).header
          → left.Committed host.crypto
          → right.Committed host.crypto
          → CollisionFree host.crypto left.body right.body
          → chain.BodyDetermined host left right := by
  intro host chain
  have readable : chain.AccountsReadable host := Account.wordCodec_readable _
  exact body_commitment_iff Account.wordCodec_roundTrips readable.accounts EcsWorld.wellformed_new
    (movingBlock 9 []).header

/-- The order of the reference node with the dirty accounts drained from the other end. -/
def drainedBackwards : BlockOrder Milli :=
  { BlockOrder.ascending Milli with
    dirtyAccounts := (BlockOrder.ascending Milli).dirtyAccounts.reversed }

-- A block that matches its header gives one result in two orders of the walks.
example
    : let host : Host Milli := .reference []
      let chain : Chain Milli := .reference host .reference 9 0
      let block := movingBlock 9 [.action 9 1 0 (.move 1000 0 0)]
      block.body.transactions = block.body.transactions
      ∧ (chain.applyBlock host (.ascending Milli) block).2.accounts host
        = (chain.applyBlock host drainedBackwards block).2.accounts host
      ∧ (chain.applyBlock host (.ascending Milli) block).2.gameWorld
        = (chain.applyBlock host drainedBackwards block).2.gameWorld := by
  intro host chain block
  have readable : chain.AccountsReadable host := Account.wordCodec_readable _
  have free : CollisionFree host.crypto block.body block.body :=
    ⟨by decide +kernel, by decide +kernel, by decide +kernel⟩
  have committed : block.Committed host.crypto := ⟨by decide +kernel, by decide +kernel⟩
  have forwards : (chain.applyBlock host (.ascending Milli) block).1 = .ok () := by
    decide +kernel
  have backwards : (chain.applyBlock host drainedBackwards block).1 = .ok () := by
    decide +kernel
  exact committed_body_determines Account.wordCodec_roundTrips readable.accounts
    EcsWorld.wellformed_new rfl committed committed free (Loop.eq_of_ok forwards)
    (Loop.eq_of_ok backwards)

end Chain

end VeloChain
