import VeloChain.Consensus.HeaderChain
import VeloChain.Node.Reference
import VeloChain.Node.Finalize
import VeloChain.Node.Reorg

/-! The canonical index over whole runs: latest number, number index, headers and bodies.
Genesis starts the index, block application extends it, a reorganization rewinds and extends
it; the head it describes is the one a restart finds.
-/

namespace VeloChain

namespace Chain

variable {F : Type} {host : Host F}

/-- The number index leads from a height to a hash. -/
def indexEntry (db : Database) (height : Nat) (hash : B256) : Prop :=
  db.getBlockHashByNumber (UInt64.ofNat height) = .ok (some hash)

/-- A header is stored under its hash, together with some body. -/
def storedBlock (host : Host F) (db : Database) (header : BlockHeader) : Prop :=
  db.getHeader host.blocks (header.hash host.crypto) = .ok (some header)
  ∧ ∃ body, db.getBody host.blocks (header.hash host.crypto) = .ok (some body)

/-- The database describes the chain that ends in `head`. -/
structure Indexed (host : Host F) (headers : Set BlockHeader) (chain : Chain F)
    (head : BlockHeader) : Prop where
  isHead : chain.head = some head
  latest : chain.db.getLatestBlockNumber = .ok (some head.number)
  canonical
    : HashChain.Canonical (headerLinks host.crypto) headers (indexEntry chain.db)
        (storedBlock host chain.db) head

variable {headers : Set BlockHeader}

/-- Genesis starts the index. -/
theorem Indexed.initGenesis {genesis : BlockHeader} (member : genesis ∈ headers)
    (number : genesis.number = 0) (header : host.blocks.header.RoundTripsAt genesis)
    (body : host.blocks.body.RoundTripsAt { transactions := [] }) (chain : Chain F)
    : Indexed host headers (chain.initGenesis host genesis) genesis := by
  have frame {cf : ColumnFamily} (h : cf ≠ .metadata)
      : (chain.initGenesis host genesis).db.contents cf
        = (chain.db.putBlock host.crypto host.blocks (Block.new genesis [])).contents cf :=
    Database.contents_putLatestBlockNumber h _ _
  refine ⟨rfl, ?_, HashChain.Canonical.root member ?_ ?_ ⟨?_, { transactions := [] }, ?_⟩⟩
  · rw [number]
    exact Database.getLatestBlockNumber_put _ _
  · simp only [headerLinks, number, UInt64.toNat_zero]
  · rw [indexEntry, Database.getBlockHashByNumber_congr (frame (by decide)),
      Database.getBlockHashByNumber_putBlock]
    exact if_pos number.symm
  · rw [Database.getHeader_congr (frame (by decide)),
      Database.getHeader_putBlock host.crypto header]
    exact if_pos rfl
  · rw [Database.getBody_congr (frame (by decide)),
      Database.getBody_putBlock host.crypto body]
    exact if_pos rfl

/-- A block that is applied extends the index. A block whose number wraps around to zero starts
a new index.
-/
theorem Indexed.result [F32 F] {chain : Chain F} {head : BlockHeader}
    (indexed : Indexed host headers chain head)
    (collisionFree : Set.InjOn (BlockHeader.hash host.crypto) headers) {order : BlockOrder F}
    {block : Block} (accepted : Accepted host order block chain)
    (member : block.header ∈ headers)
    (header : host.blocks.header.RoundTripsAt block.header)
    (body : host.blocks.body.RoundTripsAt block.body)
    : Indexed host headers accepted.result block.header := by
  have isHead : accepted.parent = head :=
    Option.some.inj (accepted.head.symm.trans indexed.isHead)
  have rules := PoaConsensus.verifyBlock_header accepted.verified
  rw [isHead] at rules
  have entry
      : indexEntry accepted.result.db block.header.number.toNat
          (block.header.hash host.crypto) := by
    rw [indexEntry, UInt64.ofNat_toNat, Accepted.result, getBlockHashByNumber_finalize]
    exact if_pos rfl
  have stored : storedBlock host accepted.result.db block.header := by
    refine ⟨?_, block.body, ?_⟩
    · rw [Accepted.result, getHeader_finalize order block _ _ _ header]
      exact if_pos rfl
    · rw [Accepted.result, getBody_finalize order block _ _ _ body]
      exact if_pos rfl
  refine ⟨rfl, getLatestBlockNumber_finalize order block _ _ chain, ?_⟩
  by_cases wrapped : block.header.number.toNat = 0
  · exact HashChain.Canonical.root member wrapped (by rwa [wrapped] at entry) stored
  · refine indexed.canonical.extend member rules.parentHash ?_ entry stored ?_ ?_
    · have number := congrArg UInt64.toNat rules.number
      rw [UInt64.toNat_add, UInt64.toNat_one] at number
      have bound := head.number.toNat_lt
      simp only [headerLinks]
      omega
    · intro n hash below old
      have bound := block.header.number.toNat_lt
      have other : UInt64.ofNat n ≠ block.number := by
        intro same
        have wrap := congrArg UInt64.toNat same
        rw [UInt64.toNat_ofNat_of_lt' (Nat.lt_trans below bound)] at wrap
        exact absurd wrap (Nat.ne_of_lt below)
      rw [indexEntry, Accepted.result, getBlockHashByNumber_finalize, if_neg other]
      exact old
    · intro record recordMember known
      obtain ⟨oldHeader, oldBody, found⟩ := known
      by_cases same : record = block.header
      · exact same ▸ stored
      · have other : record.hash host.crypto ≠ block.hash host.crypto :=
          fun collision => same (collisionFree recordMember member collision)
        refine ⟨?_, oldBody, ?_⟩
        · rwa [Accepted.result, getHeader_finalize order block _ _ _ header, if_neg other]
        · rwa [Accepted.result, getBody_finalize order block _ _ _ body, if_neg other]

/-- Applying a block extends the index when it succeeds and keeps it when it fails. -/
theorem Indexed.applyBlock [F32 F] {chain : Chain F} {head : BlockHeader}
    (indexed : Indexed host headers chain head)
    (collisionFree : Set.InjOn (BlockHeader.hash host.crypto) headers) {block : Block}
    (member : block.header ∈ headers)
    (header : host.blocks.header.RoundTripsAt block.header)
    (body : host.blocks.body.RoundTripsAt block.body) (order : BlockOrder F)
    : ∃ next, Indexed host headers (chain.applyBlock host order block).2 next := by
  rcases call : chain.applyBlock host order block with ⟨_ | _, after⟩
  · obtain ⟨_, _, _, rfl⟩ := applyBlock_error call
    exact ⟨head, indexed.isHead, indexed.latest, indexed.canonical⟩
  · obtain ⟨accepted, rfl⟩ := applyBlock_ok_iff.mp call
    exact ⟨block.header, indexed.result collisionFree accepted member header body⟩

/-- A database with the same latest number, the same numbers up to the head and the same blocks
describes the same chain.
-/
theorem Indexed.congr {chain : Chain F} {head : BlockHeader}
    (indexed : Indexed host headers chain head) {db : Database}
    (latest : db.getLatestBlockNumber = chain.db.getLatestBlockNumber)
    (numbers
      : ∀ number ≤ head.number,
          db.getBlockHashByNumber number = chain.db.getBlockHashByNumber number)
    (stored
      : ∀ header ∈ headers, storedBlock host chain.db header → storedBlock host db header)
    : Indexed host headers { chain with db } head := by
  refine ⟨indexed.isHead, latest.trans indexed.latest, indexed.canonical.mono ?_ stored⟩
  intro n hash reached entry
  have bound := Nat.lt_of_le_of_lt reached head.number.toNat_lt
  refine (numbers (UInt64.ofNat n) ?_).trans entry
  rw [UInt64.le_iff_toNat_le, UInt64.toNat_ofNat_of_lt' bound]
  exact reached

/-- Up to the head every block can be read, and has the ancestor of its height as header. -/
theorem Indexed.getBlockByNumber {chain : Chain F} {head : BlockHeader}
    (indexed : Indexed host headers chain head) {number : UInt64}
    (reached : number ≤ head.number)
    : ∃ block,
        chain.getBlockByNumber host number = .ok (some block)
        ∧ HashChain.Ancestor (headerLinks host.crypto) headers block.header head
        ∧ block.header.number = number := by
  obtain ⟨ancestor, above, height, entry, header, body, stored⟩ :=
    indexed.canonical.indexed number.toNat (UInt64.le_iff_toNat_le.mp reached)
  rw [indexEntry, UInt64.ofNat_toNat] at entry
  refine ⟨{ header := ancestor, body }, ?_, above, UInt64.toNat_inj.mp height⟩
  simp only [Chain.getBlockByNumber, getBlockByHash, headerLinks, entry, header, stored]

/-- Moving the head back to an indexed block keeps the index. -/
theorem Indexed.setHead {chain : Chain F} {head older : BlockHeader}
    (indexed : Indexed host headers chain head)
    (collisionFree : Set.InjOn (BlockHeader.hash host.crypto) headers)
    (ancestor : HashChain.Ancestor (headerLinks host.crypto) headers older head)
    : Indexed host headers (chain.setHead older) older := by
  have frame {cf : ColumnFamily} (h : cf ≠ .metadata)
      : (chain.setHead older).db.contents cf = chain.db.contents cf :=
    Database.contents_putLatestBlockNumber h _ _
  refine ⟨rfl, Database.getLatestBlockNumber_put _ _, ?_⟩
  refine (indexed.canonical.rewind collisionFree ancestor).mono ?_ ?_
  · intro n hash _ entry
    rwa [indexEntry, Database.getBlockHashByNumber_congr (frame (by decide))]
  · rintro record _ ⟨header, body, stored⟩
    refine ⟨?_, body, ?_⟩
    · rwa [Database.getHeader_congr (frame (by decide))]
    · rwa [Database.getBody_congr (frame (by decide))]

/-- Restoring the head from an indexed database finds the head it describes. -/
theorem Indexed.restoreHead {chain : Chain F} {head : BlockHeader}
    (indexed : Indexed host headers chain head)
    (collisionFree : Set.InjOn (BlockHeader.hash host.crypto) headers) {other : Chain F}
    (same : other.db = chain.db)
    : other.restoreHead host = (.ok (), { other with head := some head }) := by
  obtain ⟨ancestor, above, height, entry, header, _⟩ :=
    indexed.canonical.indexed head.number.toNat (Nat.le_refl _)
  obtain rfl : ancestor = head :=
    above.unique collisionFree (.self indexed.canonical.member) height
  rw [indexEntry, UInt64.ofNat_toNat] at entry
  simp only [Chain.restoreHead, same, indexed.latest, entry]
  simp only [headerLinks, header]

section Runs

variable [F32 F]

/-- The operations that move the head of an initialized chain. -/
inductive HeadOp (F : Type)
  | applyBlock (block : Block) (order : BlockOrder F)
  | executeReorg (forkPoint : UInt64) (newBlocks : List (Block × BlockOrder F))
  | restoreHead

/-- The blocks an operation brings to the chain. -/
def HeadOp.blocks : HeadOp F → List Block
  | .applyBlock block _ => [block]
  | .executeReorg _ newBlocks => newBlocks.map Prod.fst
  | .restoreHead => []

/-- The chain after an operation, whether it fails or not. -/
def HeadOp.run (host : Host F) (chain : Chain F) : HeadOp F → Chain F
  | .applyBlock block order => (chain.applyBlock host order block).2
  | .executeReorg forkPoint newBlocks => (chain.executeReorg host forkPoint newBlocks).2
  | .restoreHead => (chain.restoreHead host).2

/-- Every block a run starts from or is given. -/
def runBlocks (genesis : BlockHeader) (ops : List (HeadOp F)) : List Block :=
  Block.new genesis [] :: ops.flatMap HeadOp.blocks

/-- The headers of a run. -/
def runHeaders (genesis : BlockHeader) (ops : List (HeadOp F)) : Set BlockHeader :=
  { header | ∃ block ∈ runBlocks genesis ops, block.header = header }

omit [F32 F] in
/-- Whether hashes tell the headers of a run apart is a question about its list of blocks. -/
theorem injOn_runHeaders {crypto : Crypto} {genesis : BlockHeader} {ops : List (HeadOp F)}
    (distinct
      : ∀ left ∈ runBlocks genesis ops, ∀ right ∈ runBlocks genesis ops,
          left.header.hash crypto = right.header.hash crypto → left.header = right.header)
    : Set.InjOn (BlockHeader.hash crypto) (runHeaders genesis ops) := by
  rintro header ⟨left, leftMember, isLeft⟩ header' ⟨right, rightMember, isRight⟩ same
  subst isLeft isRight
  exact distinct left leftMember right rightMember same

/-- The stored formats read back every header and body in the list. -/
def ReadBack (codecs : BlockCodecs) (blocks : List Block) : Prop :=
  ∀ block ∈ blocks,
    codecs.header.RoundTripsAt block.header ∧ codecs.body.RoundTripsAt block.body

/-- Each operation keeps an index, of the old or of a new head. -/
theorem Indexed.run {chain : Chain F} {head : BlockHeader}
    (indexed : Indexed host headers chain head)
    (collisionFree : Set.InjOn (BlockHeader.hash host.crypto) headers) {op : HeadOp F}
    (member : ∀ block ∈ op.blocks, block.header ∈ headers)
    (readBack : ReadBack host.blocks op.blocks)
    : ∃ next, Indexed host headers (op.run host chain) next := by
  cases op with
  | applyBlock block order =>
      have listed : block ∈ (HeadOp.applyBlock block order).blocks := List.mem_singleton_self _
      exact indexed.applyBlock collisionFree (member block listed) (readBack block listed).1
        (readBack block listed).2 order
  | executeReorg forkPoint newBlocks =>
      refine executeReorg_invariant (fun state => ∃ next, Indexed host headers state next)
        ⟨head, indexed⟩ ?_ ?_ ?_
      · rintro state number _ ⟨next, held⟩
        obtain ⟨txpool, frame⟩ := @revertBlock_frame F host number state
        rw [frame]
        exact ⟨next, held.isHead, held.latest, held.canonical⟩
      · rintro state block ⟨next, held⟩ reached found
        have height : state.blockNumber = next.number := by
          simp only [blockNumber, held.isHead, Option.map_some, Option.getD_some]
        rw [height] at reached
        obtain ⟨stored, read, above, _⟩ := held.getBlockByNumber reached
        obtain rfl := Option.some.inj (Except.ok.inj (read.symm.trans found))
        exact ⟨stored.header, held.setHead collisionFree above⟩
      · rintro state entry listed ⟨next, held⟩
        have brought : entry.1 ∈ (HeadOp.executeReorg forkPoint newBlocks).blocks :=
          List.mem_map_of_mem listed
        exact held.applyBlock collisionFree (member _ brought) (readBack _ brought).1
          (readBack _ brought).2 entry.2
  | restoreHead =>
      refine ⟨head, ?_⟩
      rw [HeadOp.run, indexed.restoreHead collisionFree rfl]
      exact ⟨rfl, indexed.latest, indexed.canonical⟩

/-- A run of operations keeps an index, by induction on the operations. -/
theorem Indexed.foldl_run {chain : Chain F} {head : BlockHeader}
    (indexed : Indexed host headers chain head)
    (collisionFree : Set.InjOn (BlockHeader.hash host.crypto) headers)
    {ops : List (HeadOp F)}
    (member : ∀ block ∈ ops.flatMap HeadOp.blocks, block.header ∈ headers)
    (readBack : ReadBack host.blocks (ops.flatMap HeadOp.blocks))
    : ∃ next, Indexed host headers (ops.foldl (HeadOp.run host) chain) next := by
  induction ops generalizing chain head with
  | nil => exact ⟨head, indexed⟩
  | cons op rest ih =>
      have first : ∀ block ∈ op.blocks, block ∈ (op :: rest).flatMap HeadOp.blocks :=
        fun block listed => List.mem_flatMap.mpr ⟨op, List.mem_cons_self, listed⟩
      have later
          : ∀ block ∈ rest.flatMap HeadOp.blocks,
              block ∈ (op :: rest).flatMap HeadOp.blocks := by
        intro block listed
        obtain ⟨other, otherMember, listed⟩ := List.mem_flatMap.mp listed
        exact List.mem_flatMap.mpr ⟨other, List.mem_cons_of_mem op otherMember, listed⟩
      obtain ⟨next, held⟩ := indexed.run collisionFree
        (fun block listed => member block (first block listed))
        (fun block listed => readBack block (first block listed))
      exact ih held (fun block listed => member block (later block listed))
        (fun block listed => readBack block (later block listed))

/-- After genesis and any operations there is an index. -/
theorem exists_indexed_of_run {genesis : BlockHeader} (number : genesis.number = 0)
    {ops : List (HeadOp F)} (collisionFree : Set.InjOn (BlockHeader.hash host.crypto) headers)
    (member : ∀ block ∈ runBlocks genesis ops, block.header ∈ headers)
    (readBack : ReadBack host.blocks (runBlocks genesis ops)) {chain reached : Chain F}
    (ran : reached = ops.foldl (HeadOp.run host) (chain.initGenesis host genesis))
    : ∃ head, Indexed host headers reached head := by
  have stored := readBack _ List.mem_cons_self
  have started :=
    Indexed.initGenesis (member _ List.mem_cons_self) number stored.1 stored.2 chain
  rw [ran]
  exact started.foldl_run collisionFree
    (fun block listed => member block (List.mem_cons_of_mem _ listed))
    (fun block listed => readBack block (List.mem_cons_of_mem _ listed))

/-- After genesis and any operations the database describes the chain of the head: latest
number, index, headers and bodies up to its height, and the head a restart finds.
-/
theorem canonicalIndex_run (host : Host F) {genesis : BlockHeader}
    (number : genesis.number = 0) {ops : List (HeadOp F)}
    (collisionFree : Set.InjOn (BlockHeader.hash host.crypto) (runHeaders genesis ops))
    (readBack : ReadBack host.blocks (runBlocks genesis ops)) (chain final : Chain F)
    (ran : final = ops.foldl (HeadOp.run host) (chain.initGenesis host genesis))
    : ∃ head,
        final.head = some head
        ∧ final.db.getLatestBlockNumber = .ok (some head.number)
        ∧ (∀ number ≤ head.number, ∃ ancestor,
            (HashChain.Ancestor (headerLinks host.crypto) (runHeaders genesis ops) ancestor head
              ∧ ancestor.number = number
              ∧ ∀ other,
                  HashChain.Ancestor (headerLinks host.crypto) (runHeaders genesis ops) other head
                  → other.number = number → other = ancestor)
            ∧ final.db.getBlockHashByNumber number = .ok (some (ancestor.hash host.crypto))
            ∧ storedBlock host final.db ancestor)
        ∧ ∀ fresh : Chain F, fresh.db = final.db → fresh.head = none
            → fresh.restoreHead host = (.ok (), { fresh with head := some head }) := by
  obtain ⟨head, indexed⟩ := exists_indexed_of_run number collisionFree
    (fun block listed => ⟨block, listed, rfl⟩) readBack ran
  refine ⟨head, indexed.isHead, indexed.latest, ?_, ?_⟩
  · intro n reached
    obtain ⟨ancestor, above, height, entry, stored⟩ :=
      indexed.canonical.indexed n.toNat (UInt64.le_iff_toNat_le.mp reached)
    rw [indexEntry, UInt64.ofNat_toNat] at entry
    refine ⟨ancestor, ⟨above, UInt64.toNat_inj.mp height, ?_⟩, entry, stored⟩
    intro other aboveOther sameNumber
    exact aboveOther.unique collisionFree above
      ((congrArg UInt64.toNat sameNumber).trans height.symm)
  · intro fresh sameDb _
    exact indexed.restoreHead collisionFree sameDb

/-- An unsealed block on top of genesis. -/
def firstBlock : Block :=
  Block.new
    { BlockHeader.genesis 0 with
      parentHash := (BlockHeader.genesis 0).hash .disclosing
      number := 1
      timestamp := 1
      gameTick := 1
      nonce := 1 } []

/-- A chain that has not been initialized. -/
def genesisChain : Chain Milli :=
  .new .empty .new .reference .new (.newReadonly [7] { period := 1 }) 1

/-- Apply a block, go back to genesis, apply the block again and restart. -/
def backAndForth : List (HeadOp Milli) :=
  [ .applyBlock firstBlock (.ascending Milli)
  , .executeReorg 0 [(firstBlock, .ascending Milli)]
  , .restoreHead ]

theorem collisionFree_backAndForth
    : Set.InjOn (BlockHeader.hash .disclosing) (runHeaders (.genesis 0) backAndForth) :=
  injOn_runHeaders (by decide +kernel)

/-- A host that can store the blocks of the run. -/
def backAndForthHost : Host Milli := .reference (runBlocks (.genesis 0) backAndForth)

theorem readBack_backAndForth
    : ReadBack backAndForthHost.blocks (runBlocks (.genesis 0) backAndForth) := by
  unfold ReadBack
  decide +kernel

/-- The chain after the run. -/
def backAndForthChain : Chain Milli :=
  backAndForth.foldl (HeadOp.run backAndForthHost)
    (genesisChain.initGenesis backAndForthHost (.genesis 0))

theorem canonicalIndex_backAndForth
    : ∃ head,
        backAndForthChain.head = some head
        ∧ backAndForthChain.db.getLatestBlockNumber = .ok (some head.number) := by
  obtain ⟨head, isHead, latest, _⟩ := canonicalIndex_run backAndForthHost rfl
    collisionFree_backAndForth readBack_backAndForth genesisChain backAndForthChain rfl
  exact ⟨head, isHead, latest⟩

end Runs

end Chain

end VeloChain
