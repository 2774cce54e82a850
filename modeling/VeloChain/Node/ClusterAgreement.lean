import VeloChain.Node.BlockArchive
import VeloChain.Node.Cluster
import VeloChain.Node.FutureNonces
import VeloChain.TxPool.PoolIndex

/-! A cluster with one validator has one history.
Genesis and the blocks that the validator has produced so far are the history; their numbers are
their places. All messages carry blocks of the history, every node stores and buffers blocks of
the history alone, and the head of the validator is the last block of it. So no two nodes ever
differ about a block, and no chain is longer than that of the validator.
-/

namespace VeloChain

open Chain

variable {F : Type} [F32 F]

-----------------------------------------------------------------------------------------
-- Chains over a history
-----------------------------------------------------------------------------------------

/-- The headers of blocks. -/
def headersOf (blocks : List Block) : Set BlockHeader :=
  { header | ∃ block ∈ blocks, block.header = header }

/-- The chain of a node stores blocks of the history, one for each number up to the head. -/
structure OnHistory (host : Host F) (known : Set BlockHeader) (history : List Block)
    (chain : Chain F) : Prop where
  archive : ArchiveOf host history chain
  indexed
    : ∃ head, Indexed host (aged known) chain head
        ∧ ∀ number, head.number < number → chain.db.getBlockHashByNumber number = .ok none

section Chains

variable {host : Host F} {known : Set BlockHeader} {history : List Block} {chain : Chain F}

omit [F32 F] in
theorem OnHistory.mono (on : OnHistory host known history chain) {longer : List Block}
    (subset : history ⊆ longer)
    : OnHistory host known longer chain := by
  obtain ⟨log, archived, among⟩ := on.archive
  exact ⟨⟨log, archived, fun applied member => subset (among applied member)⟩, on.indexed⟩

omit [F32 F] in
/-- Only database and head matter. -/
theorem OnHistory.congr (on : OnHistory host known history chain) {other : Chain F}
    (db : other.db = chain.db) (head : other.head = chain.head)
    : OnHistory host known history other := by
  obtain ⟨log, archived, among⟩ := on.archive
  obtain ⟨found, ⟨isHead, latest, canonical⟩, above⟩ := on.indexed
  rw [← db] at archived latest canonical above
  exact ⟨⟨log, archived, among⟩, found, ⟨head.trans isHead, latest, canonical⟩, above⟩

variable (collisionFree : Set.InjOn (BlockHeader.hash host.crypto) known)

include collisionFree

/-- Applying a block of the history keeps the chain on it, whether it succeeds or fails. -/
theorem OnHistory.applyBlock (on : OnHistory host known history chain) {block : Block}
    (member : block ∈ history) (listed : block.header ∈ known)
    (header : host.blocks.header.RoundTripsAt block.header)
    (body : host.blocks.body.RoundTripsAt block.body) (order : BlockOrder F)
    : OnHistory host known history (chain.applyBlock host order block).2 := by
  refine ⟨on.archive.applyBlock member order, ?_⟩
  obtain ⟨head, indexed, above⟩ := on.indexed
  rcases call : chain.applyBlock host order block with ⟨_ | _, after⟩
  · obtain ⟨_, _, _, rfl⟩ := applyBlock_error call
    exact ⟨head, ⟨indexed.isHead, indexed.latest, indexed.canonical⟩, above⟩
  · obtain ⟨accepted, rfl⟩ := applyBlock_ok_iff.mp call
    have tellsApart := collisionFree.mono (fun _ (isAged : _ ∈ aged known) => isAged.1)
    obtain ⟨grows, isAged⟩ := indexed.child accepted listed
    refine ⟨block.header, indexed.result tellsApart accepted isAged header body, ?_⟩
    intro number higher
    have other : number ≠ block.number := (UInt64.ne_of_lt higher).symm
    rw [Accepted.result, getBlockHashByNumber_finalize, if_neg other]
    exact above number (UInt64.lt_trans grows higher)

/-- A restart finds the head again. -/
theorem OnHistory.restart (on : OnHistory host known history chain)
    : OnHistory host known history (chain.restart host)
      ∧ (chain.restart host).head = chain.head := by
  obtain ⟨head, indexed, above⟩ := on.indexed
  have tellsApart := collisionFree.mono (fun _ (isAged : _ ∈ aged known) => isAged.1)
  have restored := @Indexed.restoreHead F host (aged known) chain head indexed tellsApart
    (Chain.new chain.db .new (restoredWorld host chain.db chain.gameWorld.seed) .new
      { chain.consensus with gameTick := 0 } chain.chainId) rfl
  have found : (chain.restart host).head = chain.head := by
    rw [Chain.restart, restored]
    exact indexed.isHead.symm
  refine ⟨on.congr ?_ found, found⟩
  rw [Chain.restart, restored]
  rfl

variable (readBack : ReadBack host.blocks history) (headers : headersOf history ⊆ known)

include readBack headers

omit [F32 F] in
/-- A block that is found under a number is the one of the history. -/
theorem OnHistory.getBlockByNumber (on : OnHistory host known history chain) {number : UInt64}
    {block : Block} (found : chain.getBlockByNumber host number = .ok (some block))
    : block ∈ history ∧ block.number = number := by
  obtain ⟨log, archived, among⟩ := on.archive
  obtain ⟨head, indexed, above⟩ := on.indexed
  have reached : number ≤ head.number := by
    refine UInt64.not_lt.mp fun higher => ?_
    simp [Chain.getBlockByNumber, above number higher] at found
  obtain ⟨record, isAncestor, _, entry, stored, _⟩ :=
    indexed.canonical.indexed number.toNat (UInt64.le_iff_toNat_le.mp reached)
  rw [indexEntry, UInt64.ofNat_toNat, archived.getBlockHashByNumber] at entry
  obtain ⟨applied, canonical, sameHash⟩ := Option.map_eq_some_iff.mp (Except.ok.inj entry)
  have listed (other : AppliedBlock) (member : other ∈ log) : other.block.header ∈ known :=
    headers ⟨other.block, among other member, rfl⟩
  have member := List.mem_of_find?_eq_some canonical
  obtain rfl : applied.block.header = record :=
    collisionFree (listed applied member) isAncestor.member_older.1 sameHash
  have body := archived.getBody
    (collisionFree.mono (by
      rintro header ⟨other, isLogged, rfl⟩
      exact listed other isLogged))
    (fun other isLogged => (readBack _ (among other isLogged)).2) canonical
  simp only [Chain.getBlockByNumber, Chain.getBlockByHash, archived.getBlockHashByNumber,
    canonical, Option.map_some, Block.hash] at found
  rw [stored] at found
  simp only [show chain.db.getBody _ (applied.block.header.hash host.crypto) = _ from body,
    Except.ok.injEq, Option.some.injEq] at found
  subst found
  exact ⟨among applied member, by simpa using List.find?_some canonical⟩

end Chains

-----------------------------------------------------------------------------------------
-- The law of a cluster
-----------------------------------------------------------------------------------------

namespace Cluster

variable {ι : Type} (cluster : Cluster F ι)

/-- The number of a block of the history is its place, the blocks are among those of the run, and
their transactions were submitted to a validator.
-/
structure Sound (blocks : List Block) (sent : ι → SignedTransaction → Prop)
    (history : List Block) : Prop where
  numbered
    : ∀ (place : Nat) (block : Block), history[place]? = some block →
        block.number.toNat = place
  among : history ⊆ blocks
  source
    : ∀ block ∈ history, ∀ tx ∈ block.body.transactions,
        ∃ i, cluster.validator i = true ∧ sent i tx

/-- What holds of a node: it stores and buffers blocks of the history, its pool holds what was
submitted to it, and the history ends where the chain of a validator does.
-/
structure NodeLaw (blocks : List Block) (sent : ι → SignedTransaction → Prop)
    (history : List Block) (i : ι) (node : NetworkHandler F) : Prop where
  sound : cluster.Sound blocks sent history
  chain : OnHistory cluster.host (headersOf blocks) history node.chain
  buffered
    : ∀ number entry, node.blockBuffer.lookup number = some entry → entry.1 ∈ history
  pooled : node.chain.txpool.Holds (sent i)
  leads : cluster.validator i = true → history.length = node.chain.blockNumber.toNat + 1

/-- The messages of a cluster: announcements of blocks, questions for blocks, and answers. -/
def MessageLaw (history : List Block) : NetworkMessage → Prop
  | .newBlock block | .blockResponse (some block) => block ∈ history
  | .getBlock _ => True
  | _ => False

/-- Only the turns of validators add to the history, one block at a time. -/
def Guarantee (blocks : List Block) (sent : ι → SignedTransaction → Prop) (i : ι)
    (history longer : List Block) : Prop :=
  longer = history
  ∨ cluster.validator i = true ∧ cluster.Sound blocks sent longer
    ∧ ∃ block, longer = history ++ [block]

variable {cluster} {blocks history : List Block} {sent : ι → SignedTransaction → Prop} {i : ι}
  {node : NetworkHandler F}

omit [F32 F] in
theorem Sound.number_lt (sound : cluster.Sound blocks sent history) {block : Block}
    (member : block ∈ history)
    : block.number.toNat < history.length := by
  obtain ⟨place, isAt⟩ := List.mem_iff_getElem?.mp member
  rw [sound.numbered place block isAt]
  exact (List.getElem?_eq_some_iff.mp isAt).1

omit [F32 F] in
/-- Blocks of the history with one number are the same. -/
theorem Sound.unique (sound : cluster.Sound blocks sent history) {left right : Block}
    (isLeft : left ∈ history) (isRight : right ∈ history) (same : left.number = right.number)
    : left = right := by
  obtain ⟨place, isAt⟩ := List.mem_iff_getElem?.mp isLeft
  obtain ⟨place', isAt'⟩ := List.mem_iff_getElem?.mp isRight
  have samePlace : place = place' := by
    rw [← sound.numbered place left isAt, ← sound.numbered place' right isAt', same]
  subst samePlace
  exact Option.some.inj (isAt.symm.trans isAt')

omit [F32 F] in
theorem Sound.headers (sound : cluster.Sound blocks sent history)
    : headersOf history ⊆ headersOf blocks :=
  fun _ ⟨block, member, same⟩ => ⟨block, sound.among member, same⟩

omit [F32 F] in
/-- Another buffer of blocks of the history, and other requests, do not matter. -/
theorem NodeLaw.rebuffer (law : cluster.NodeLaw blocks sent history i node)
    {other : NetworkHandler F} (chain : other.chain = node.chain)
    (buffered
      : ∀ number entry, other.blockBuffer.lookup number = some entry → entry.1 ∈ history)
    : cluster.NodeLaw blocks sent history i other :=
  ⟨law.sound, chain ▸ law.chain, buffered, chain ▸ law.pooled, chain ▸ law.leads⟩

omit [F32 F] in
theorem NodeLaw.limitBuffer (law : cluster.NodeLaw blocks sent history i node)
    : cluster.NodeLaw blocks sent history i node.limitBuffer :=
  law.rebuffer rfl (fun number entry found =>
    law.buffered number entry (NetworkHandler.lookup_limitBuffer_some found))

section Turns

variable (collisionFree : Set.InjOn (BlockHeader.hash cluster.host.crypto) (headersOf blocks))
  (readBack : ReadBack cluster.host.blocks blocks)

include collisionFree readBack

/-- A node that applies a block of the history keeps the law. The head of a validator is the last
block of the history, so that it applies none of them.
-/
theorem NodeLaw.applyBlock (law : cluster.NodeLaw blocks sent history i node) {block : Block}
    (member : block ∈ history) (order : BlockOrder F)
    : cluster.NodeLaw blocks sent history i
        { node with chain := (node.chain.applyBlock cluster.host order block).2 } := by
  have isBlock := law.sound.among member
  have on := law.chain.applyBlock collisionFree member ⟨block, isBlock, rfl⟩
    (readBack block isBlock).1 (readBack block isBlock).2 order
  refine ⟨law.sound, on, law.buffered, ?_, ?_⟩
  all_goals
    rcases call : node.chain.applyBlock cluster.host order block with ⟨_ | _, after⟩
  · obtain ⟨_, _, _, rfl⟩ := applyBlock_error call
    exact law.pooled
  · obtain ⟨accepted, rfl⟩ := applyBlock_ok_iff.mp call
    exact law.pooled.removeIncluded _
  · obtain ⟨_, _, _, rfl⟩ := applyBlock_error call
    exact law.leads
  · intro validates
    obtain ⟨accepted, rfl⟩ := applyBlock_ok_iff.mp call
    obtain ⟨head, indexed, _⟩ := law.chain.indexed
    have leads := law.leads validates
    have below := law.sound.number_lt member
    obtain ⟨grows, _⟩ := indexed.child accepted ⟨block, isBlock, rfl⟩
    rw [Chain.blockNumber, indexed.isHead] at leads
    have grows := UInt64.lt_iff_toNat_lt.mp grows
    simp only [Option.map_some, Option.getD_some, Block.number] at leads below
    omega

theorem NodeLaw.applyBuffered (law : cluster.NodeLaw blocks sent history i node) (rounds : Nat)
    : cluster.NodeLaw blocks sent history i (node.applyBuffered cluster.host rounds) := by
  induction rounds generalizing node with
  | zero => exact law
  | succ rounds ih =>
      cases found : node.blockBuffer.lookup node.expected with
      | none => rwa [NetworkHandler.applyBuffered_of_none _ found]
      | some entry =>
          have member := law.buffered _ _ found
          have applied := law.applyBlock collisionFree readBack member entry.2
          have erased
              : ∀ number other,
                  (node.blockBuffer.erase node.expected).lookup number = some other
                    → other.1 ∈ history := by
            intro number other kept
            rw [FinMap.lookup_erase_eq] at kept
            split at kept
            next => simp at kept
            next => exact law.buffered number other kept
          rcases call : node.chain.applyBlock cluster.host entry.2 entry.1
            with ⟨_ | _, chain⟩
          all_goals rw [call] at applied
          · rw [NetworkHandler.applyBuffered_of_failed found call]
            exact applied.rebuffer rfl erased
          · rw [NetworkHandler.applyBuffered_of_applied found call]
            exact ih (applied.rebuffer rfl erased)

/-- A node that receives a block of the history keeps the law, and asks at most for blocks. -/
theorem NodeLaw.onBlock (law : cluster.NodeLaw blocks sent history i node) {block : Block}
    (member : block ∈ history) (order : BlockOrder F)
    : cluster.NodeLaw blocks sent history i (node.onBlock cluster.host block order).2
      ∧ ∀ command ∈ (node.onBlock cluster.host block order).1,
          ∃ number, command = .requestBlock number := by
  have applied := law.applyBlock collisionFree readBack member order
  rcases Nat.lt_trichotomy block.number.toNat node.expected with old | isNext | early
  · rw [NetworkHandler.onBlock_of_lt old]
    exact ⟨law, by simp⟩
  · rcases call : node.chain.applyBlock cluster.host order block with ⟨_ | _, chain⟩
    all_goals rw [call] at applied
    · rw [NetworkHandler.onBlock_of_failed isNext call]
      exact ⟨applied.limitBuffer, by simp⟩
    · rw [NetworkHandler.onBlock_of_applied isNext call]
      refine ⟨NodeLaw.limitBuffer ?_, by simp⟩
      refine NodeLaw.applyBuffered collisionFree readBack ?_ _
      exact applied.rebuffer rfl law.buffered
  · obtain ⟨commands, requestedBlocks, same, _, asked⟩ :=
      @NetworkHandler.onBlock_of_gt F _ cluster.host block order node early
    rw [same]
    refine ⟨NodeLaw.limitBuffer (law.rebuffer rfl ?_), ?_⟩
    · intro number entry found
      rw [FinMap.lookup_insert_eq] at found
      split at found
      next => exact Option.some.inj found ▸ member
      next => exact law.buffered number entry found
    · intro command isCommand
      obtain ⟨number, isRequest, _⟩ := asked command isCommand
      exact ⟨number, isRequest⟩

/-- Whatever reaches a node, it keeps the law and answers with blocks of the history. -/
theorem NodeLaw.receive (law : cluster.NodeLaw blocks sent history i node)
    {message : NetworkMessage} (lawful : MessageLaw history message)
    (read : cluster.messages.RoundTripsAt message) (how : Reception F)
    : cluster.NodeLaw blocks sent history i (cluster.receive i how message node).2
      ∧ ∀ m ∈ (cluster.receive i how message node).1, MessageLaw history m := by
  have asks {commands : List NetworkCommand}
      (asked : ∀ command ∈ commands, ∃ number, command = .requestBlock number)
      : ∀ m ∈ commands.filterMap (fun command => command.toService.message),
          MessageLaw history m := by
    intro m member
    obtain ⟨command, isCommand, isMessage⟩ := List.mem_filterMap.mp member
    obtain ⟨number, rfl⟩ := asked command isCommand
    obtain rfl := Option.some.inj isMessage
    trivial
  have decoded : cluster.messages.decode (cluster.messages.encode message) = .ok message := read
  unfold Cluster.receive
  rw [decoded]
  cases message with
  | newBlock block =>
      obtain ⟨kept, asked⟩ := law.onBlock collisionFree readBack lawful how.order
      exact ⟨kept, asks asked⟩
  | getBlock number =>
      simp only [NetworkMessage.event, NetworkHandler.onEvent]
      split
      next block found =>
        refine ⟨law, ?_⟩
        intro m member
        obtain rfl := List.mem_singleton.mp member
        exact (law.chain.getBlockByNumber collisionFree
          (fun block isBlock => readBack block (law.sound.among isBlock)) law.sound.headers
          found).1
      next => exact ⟨law, by simp⟩
      next => exact ⟨law, by simp⟩
  | blockResponse response =>
      cases response with
      | none => exact absurd lawful id
      | some block =>
          obtain ⟨kept, asked⟩ := law.onBlock collisionFree readBack lawful how.order
          exact ⟨kept, asks asked⟩
  | _ => exact absurd lawful id

omit collisionFree readBack in
/-- A block that could not be produced leaves database, pool and head as they are. -/
theorem produceBlock_error {host : Host F} {chain stop : Chain F} {now : UInt64}
    {senders : IterationOrder Address SenderQueue} {order : BlockOrder F} {e : NodeError}
    (failed : chain.produceBlock host now senders order = (.error e, stop))
    : stop.db = chain.db ∧ stop.head = chain.head ∧ stop.txpool = chain.txpool := by
  have prepared
      : (chain.prepareOnly host now).db = chain.db
        ∧ (chain.prepareOnly host now).head = chain.head
        ∧ (chain.prepareOnly host now).txpool = chain.txpool := by
    unfold Chain.prepareOnly
    split <;> exact ⟨rfl, rfl, rfl⟩
  rcases @produceBlock_cases F _ host now senders order chain with same | ⟨block, same, result⟩
  · rw [failed] at same
    obtain rfl : stop = _ := same
    exact prepared
  · rw [failed] at same result
    obtain rfl : stop = _ := same
    rcases call : (chain.prepareOnly host now).applyBlock host order block with ⟨_ | _, after⟩
    · obtain ⟨_, _, _, rfl⟩ := applyBlock_error call
      exact prepared
    · rw [call] at result
      exact absurd (result rfl) (by simp)

/-- A block that a validator produces continues the history. -/
theorem NodeLaw.produce (law : cluster.NodeLaw blocks sent history i node)
    (validates : cluster.validator i = true) {now : UInt64}
    {senders : IterationOrder Address SenderQueue} {order : BlockOrder F} {block : Block}
    {next : Chain F}
    (produced
      : node.chain.produceBlock cluster.host now senders order = (.ok block, next))
    (isBlock : block ∈ blocks)
    : cluster.NodeLaw blocks sent (history ++ [block]) i { node with chain := next } := by
  obtain ⟨selected, consensus, applied⟩ := produceBlock_ok produced
  have longer : history ⊆ history ++ [block] := List.subset_append_left _ _
  have start
      : OnHistory cluster.host (headersOf blocks) (history ++ [block])
          { node.chain with consensus } :=
    (law.chain.mono longer).congr rfl rfl
  have on := start.applyBlock collisionFree (List.mem_append_right _ List.mem_cons_self)
    ⟨block, isBlock, rfl⟩ (readBack block isBlock).1 (readBack block isBlock).2 order
  rw [applied] at on
  obtain ⟨accepted, rfl⟩ := applyBlock_ok_iff.mp applied
  obtain ⟨head, indexed, _⟩ := start.indexed
  have place : block.number.toNat = history.length := by
    have leads := law.leads validates
    rw [Chain.blockNumber, show node.chain.head = some head from indexed.isHead] at leads
    obtain ⟨grows, _⟩ := indexed.child accepted ⟨block, isBlock, rfl⟩
    have follows := congrArg UInt64.toNat (accepted.follows_head indexed.isHead).number
    rw [UInt64.toNat_add, UInt64.toNat_one] at follows
    have grows := UInt64.lt_iff_toNat_lt.mp grows
    have bound := block.header.number.toNat_lt
    simp only [Option.map_some, Option.getD_some, Block.number] at leads ⊢
    omega
  refine ⟨⟨?_, ?_, ?_⟩, on, ?_, law.pooled.removeIncluded _, ?_⟩
  · intro at' other found
    rw [List.getElem?_append] at found
    split at found
    next => exact law.sound.numbered at' other found
    next beyond =>
      rw [List.getElem?_singleton] at found
      split at found
      next =>
        obtain rfl := Option.some.inj found
        omega
      next => simp at found
  · intro other member
    rcases List.mem_append.mp member with before | isNew
    · exact law.sound.among before
    · exact List.mem_singleton.mp isNew ▸ isBlock
  · intro other member tx carried
    rcases List.mem_append.mp member with before | isNew
    · exact law.sound.source other before tx carried
    · obtain rfl := List.mem_singleton.mp isNew
      rw [selected] at carried
      obtain ⟨sender, nonce, waiting⟩ :=
        TransactionPool.mem_getPending (selectTxs_subset carried)
      exact ⟨i, validates, law.pooled.queued sender nonce tx waiting⟩
  · intro number entry found
    exact longer (law.buffered number entry found)
  · intro _
    rw [List.length_append, List.length_singleton, ← place]
    rfl

/-- Whatever a node does by itself, it keeps the law of the history that goes on. -/
theorem NodeLaw.act (law : cluster.NodeLaw blocks sent history i node) {action : NodeAction F}
    (handed : ∀ tx, action = .addTransaction tx → sent i tx)
    (listed
      : ∀ m ∈ (cluster.act i action node).1, ∀ block, m.announced = some block → block ∈ blocks)
    : ∃ longer, cluster.Guarantee blocks sent i history longer
        ∧ cluster.NodeLaw blocks sent longer i (cluster.act i action node).2
        ∧ ∀ m ∈ (cluster.act i action node).1, MessageLaw longer m := by
  have quiet {other : NetworkHandler F} (kept : cluster.NodeLaw blocks sent history i other)
      : ∃ longer, cluster.Guarantee blocks sent i history longer
          ∧ cluster.NodeLaw blocks sent longer i other
          ∧ ∀ m ∈ ([] : List NetworkMessage), MessageLaw longer m :=
    ⟨history, Or.inl rfl, kept, by simp⟩
  have same {chain : Chain F} (db : chain.db = node.chain.db)
      (head : chain.head = node.chain.head) (pooled : chain.txpool.Holds (sent i))
      : cluster.NodeLaw blocks sent history i { node with chain } := by
    refine ⟨law.sound, law.chain.congr db head, law.buffered, pooled, fun validates => ?_⟩
    rw [Chain.blockNumber, head]
    exact law.leads validates
  cases action with
  | produce now senders order =>
      simp only [Cluster.act] at listed ⊢
      by_cases validates : cluster.validator i = true
      · simp only [validates, if_true] at listed ⊢
        rcases produced : node.chain.produceBlock cluster.host now senders order
          with ⟨e | block, next⟩
        · obtain ⟨db, head, txpool⟩ := produceBlock_error produced
          exact quiet (same db head (txpool ▸ law.pooled))
        · simp only [produced, ServiceCommand.message, Option.toList_some,
            List.mem_singleton, forall_eq, NetworkMessage.announced, Option.some.injEq]
            at listed ⊢
          have isBlock := listed block rfl
          have kept := law.produce collisionFree readBack validates produced isBlock
          exact ⟨history ++ [block], Or.inr ⟨validates, kept.sound, block, rfl⟩, kept,
            List.mem_append_right _ List.mem_cons_self⟩
      · simp only [validates, if_false, Bool.false_eq_true]
        exact quiet law
  | addTransaction tx =>
      exact quiet (same rfl rfl (law.pooled.addTransaction (handed tx rfl)))
  | readAccount address => exact quiet (same rfl rfl law.pooled)
  | restart =>
      obtain ⟨on, head⟩ := law.chain.restart collisionFree
      obtain ⟨found, frame⟩ := @restart_frame F _ cluster.host node.chain
      have kept
          : cluster.NodeLaw blocks sent history i (.new (node.chain.restart cluster.host)) := by
        refine ⟨law.sound, on, ?_, ?_, fun validates => ?_⟩
        · intro number entry buffered
          simp [NetworkHandler.new] at buffered
        · simp only [NetworkHandler.new, frame]
          exact TransactionPool.holds_withMaxSize _ _
        · simp only [NetworkHandler.new, Chain.blockNumber, head]
          exact law.leads validates
      exact quiet kept

/-- With a single validator the turns of all nodes uphold the law. -/
theorem upholds
    (single : ∀ i j, cluster.validator i = true → cluster.validator j = true → i = j)
    : cluster.protocol.Upholds (fun i action => ∀ tx, action = .addTransaction tx → sent i tx)
        (fun m =>
          (∀ block, m.announced = some block → block ∈ blocks)
          ∧ cluster.messages.RoundTripsAt m)
        (cluster.NodeLaw blocks sent) MessageLaw (cluster.Guarantee blocks sent) where
  act history i action node handed law listed :=
    law.act collisionFree readBack handed (fun m member => (listed m member).1)
  receive history i how m node among lawful law _ := by
    obtain ⟨kept, answers⟩ := law.receive collisionFree readBack lawful among.2 how
    exact ⟨history, Or.inl rfl, kept, answers⟩
  others history longer i j node guarantees other law := by
    rcases guarantees with rfl | ⟨validates, sound, block, rfl⟩
    · exact law
    · have subset : history ⊆ history ++ [block] := List.subset_append_left _ _
      exact ⟨sound, law.chain.mono subset,
        fun number entry found => subset (law.buffered number entry found), law.pooled,
        fun alsoValidates => absurd (single j i alsoValidates validates) other⟩
  lasts history longer i m guarantees lawful := by
    rcases guarantees with rfl | ⟨_, _, block, rfl⟩
    · exact lawful
    · have subset : history ⊆ history ++ [block] := List.subset_append_left _ _
      cases m with
      | newBlock announced => exact subset lawful
      | blockResponse response =>
          cases response with
          | none => exact lawful
          | some answer => exact subset lawful
      | _ => exact lawful

end Turns

-----------------------------------------------------------------------------------------
-- Runs
-----------------------------------------------------------------------------------------

section Runs

variable {genesis : BlockHeader} {start : ι → Chain F}

omit [F32 F] in
/-- A node over an empty database begins the history with genesis. -/
theorem onHistory_initGenesis {host : Host F} {known : Set BlockHeader} {chain : Chain F}
    (number : genesis.number = 0) (fresh : Archived host [] chain.db) (isKnown : genesis ∈ known)
    (header : host.blocks.header.RoundTripsAt genesis)
    (body : host.blocks.body.RoundTripsAt { transactions := [] })
    : OnHistory host known [Block.new genesis []] (chain.initGenesis host genesis) := by
  have archived := fresh.initGenesis genesis
  have isAged : genesis ∈ aged known := ⟨isKnown, number ▸ UInt64.zero_le⟩
  refine ⟨⟨_, archived, fun applied member => ?_⟩, genesis,
    Indexed.initGenesis isAged number header body chain, ?_⟩
  · rw [List.mem_singleton.mp member]
    exact List.mem_cons_self
  · intro other higher
    rw [archived.getBlockHashByNumber, canonicalAt, List.find?_cons_of_neg, List.find?_nil]
    · rfl
    · simp only [AppliedBlock.genesis, Block.new, Block.number, beq_iff_eq]
      exact UInt64.ne_of_lt higher

omit [F32 F] in
theorem lawful_launch (number : genesis.number = 0)
    (fresh : ∀ i, Archived cluster.host [] (start i).db ∧ (start i).txpool = .new)
    (isBlock : Block.new genesis [] ∈ blocks) (readBack : ReadBack cluster.host.blocks blocks)
    : Gossip.Protocol.Lawful (cluster.NodeLaw blocks sent) MessageLaw [Block.new genesis []]
        (cluster.launch genesis start) := by
  refine ⟨fun i => ⟨⟨?_, ?_, ?_⟩, ?_, ?_, ?_, ?_⟩, by simp [launch]⟩
  · intro place block found
    rw [List.getElem?_singleton] at found
    split at found
    next first =>
      obtain rfl := Option.some.inj found
      simp [Block.new, Block.number, number, first]
    next => simp at found
  · exact List.cons_subset.mpr ⟨isBlock, List.nil_subset _⟩
  · intro block member tx carried
    obtain rfl := List.mem_singleton.mp member
    simp [Block.new] at carried
  · obtain ⟨header, body⟩ := readBack _ isBlock
    exact onHistory_initGenesis number (fresh i).1 ⟨_, isBlock, rfl⟩ header body
  · intro number entry found
    simp [launch, NetworkHandler.new] at found
  · simp only [launch, NetworkHandler.new, Chain.initGenesis, (fresh i).2]
    exact TransactionPool.holds_withMaxSize _ _
  · intro _
    simp [launch, NetworkHandler.new, Chain.initGenesis, Chain.blockNumber, number]

omit [F32 F] in
theorem mem_submitted [DecidableEq ι] {turns : List (ClusterTurn F ι)} {i : ι}
    {tx : SignedTransaction}
    (handed : .act i (.addTransaction tx) ∈ turns)
    : tx ∈ submitted i turns :=
  List.mem_filterMap.mpr ⟨_, handed, by simp⟩

variable [DecidableEq ι]
  (single : ∀ i j, cluster.validator i = true → cluster.validator j = true → i = j)
  (number : genesis.number = 0)
  (fresh : ∀ i, Archived cluster.host [] (start i).db ∧ (start i).txpool = .new)
  (turns : List (ClusterTurn F ι)) {net : ClusterNet F ι}
  (ran : net = cluster.run genesis start turns)
  (collisionFree
    : Set.InjOn (BlockHeader.hash cluster.host.crypto) (headersOf (net.blocks genesis)))
  (readBack : ReadBack cluster.host.blocks (net.blocks genesis))
  (messagesRead : ∀ m ∈ net.published, cluster.messages.RoundTripsAt m)

include single number fresh ran collisionFree readBack messagesRead

/-- What every run of a cluster with one validator keeps, given a history of its blocks. -/
theorem exists_history
    : ∃ history,
        Gossip.Protocol.Lawful
          (cluster.NodeLaw (net.blocks genesis) (fun i tx => tx ∈ submitted i turns))
          MessageLaw history net := by
  subst ran
  have lawful := @lawful_launch F ι cluster _ (fun i tx => tx ∈ submitted i turns) genesis start
    number fresh List.mem_cons_self readBack
  obtain ⟨history, _, lawful⟩ := (upholds collisionFree readBack single).run lawful
    (fun i action member tx isTx => mem_submitted (isTx ▸ member))
    (fun m member => ⟨fun block announced => List.mem_cons_of_mem _
      (List.mem_filterMap.mpr ⟨m, member, announced⟩), messagesRead m member⟩)
  exact ⟨history, lawful⟩

/-- In a cluster with one validator, whatever is lost, repeated or overtaken on the way, no two
nodes have different blocks under one number; and the validator has every block that any node
has up to its head.
-/
theorem agreement
    : (∀ i j n left right,
        (net.parties i).chain.getBlockByNumber cluster.host n = .ok (some left) →
        (net.parties j).chain.getBlockByNumber cluster.host n = .ok (some right) →
        left = right)
      ∧ ∀ i p, cluster.validator p = true → ∀ n ≤ (net.parties i).chain.blockNumber,
          ∃ block,
            (net.parties i).chain.getBlockByNumber cluster.host n = .ok (some block)
            ∧ (net.parties p).chain.getBlockByNumber cluster.host n = .ok (some block) := by
  obtain ⟨history, nodes, _⟩ :=
    exists_history single number fresh turns ran collisionFree readBack messagesRead
  have stored {i : ι} {n : UInt64} {block : Block}
      (found : (net.parties i).chain.getBlockByNumber cluster.host n = .ok (some block))
      : block ∈ history ∧ block.number = n :=
    (nodes i).chain.getBlockByNumber collisionFree
      (fun other member => readBack other ((nodes i).sound.among member)) (nodes i).sound.headers
      found
  have reached {i : ι} {n : UInt64} (below : n ≤ (net.parties i).chain.blockNumber)
      : ∃ block, (net.parties i).chain.getBlockByNumber cluster.host n = .ok (some block) := by
    obtain ⟨head, indexed, _⟩ := (nodes i).chain.indexed
    rw [Chain.blockNumber, indexed.isHead] at below
    obtain ⟨block, found, _⟩ := indexed.getBlockByNumber below
    exact ⟨block, found⟩
  have same {i j : ι} {n : UInt64} {left right : Block}
      (atLeft : (net.parties i).chain.getBlockByNumber cluster.host n = .ok (some left))
      (atRight : (net.parties j).chain.getBlockByNumber cluster.host n = .ok (some right))
      : left = right := by
    obtain ⟨isLeft, hasLeft⟩ := stored atLeft
    obtain ⟨isRight, hasRight⟩ := stored atRight
    exact (nodes i).sound.unique isLeft isRight (hasLeft.trans hasRight.symm)
  refine ⟨fun i j n left right => same, fun i p validates n below => ?_⟩
  obtain ⟨block, found⟩ := reached below
  obtain ⟨member, isNumber⟩ := stored found
  have bound := (nodes i).sound.number_lt member
  rw [(nodes p).leads validates, isNumber] at bound
  obtain ⟨other, alsoFound⟩ := reached (UInt64.le_iff_toNat_le.mpr (Nat.le_of_lt_succ bound))
  exact ⟨block, found, same found alsoFound ▸ alsoFound⟩

/-- In a cluster with one validator, transactions stay at the node that they were submitted to: a
pool holds no others, a block anywhere carries only such that were submitted to the validator,
and nothing but announcements, requests and responses of blocks is ever published.
-/
theorem transactions_stay
    : (∀ i, (net.parties i).chain.txpool.Holds (fun tx => tx ∈ submitted i turns))
      ∧ (∀ i n block,
          (net.parties i).chain.getBlockByNumber cluster.host n = .ok (some block) →
          ∀ tx ∈ block.body.transactions,
            ∃ p, cluster.validator p = true ∧ tx ∈ submitted p turns)
      ∧ ∀ m ∈ net.published,
          (∃ block, m = .newBlock block) ∨ (∃ n, m = .getBlock n)
          ∨ ∃ block, m = .blockResponse (some block) := by
  obtain ⟨history, nodes, messages⟩ :=
    exists_history single number fresh turns ran collisionFree readBack messagesRead
  refine ⟨fun i => (nodes i).pooled, fun i n block found => ?_, fun m member => ?_⟩
  · have readHistory : ReadBack cluster.host.blocks history :=
      fun other member => readBack other ((nodes i).sound.among member)
    obtain ⟨member, _⟩ :=
      (nodes i).chain.getBlockByNumber collisionFree readHistory (nodes i).sound.headers found
    exact (nodes i).sound.source block member
  · have lawful := messages m member
    cases m with
    | newBlock block => exact Or.inl ⟨block, rfl⟩
    | getBlock n => exact Or.inr (Or.inl ⟨n, rfl⟩)
    | blockResponse response =>
        cases response with
        | none => exact absurd lawful id
        | some block => exact Or.inr (Or.inr ⟨block, rfl⟩)
    | _ => exact absurd lawful id

end Runs

-----------------------------------------------------------------------------------------
-- A validator and a follower
-----------------------------------------------------------------------------------------

/-- Node `true` holds the key of the only validator. -/
def pairStart (i : Bool) : Chain Milli :=
  .new .empty .new .reference .new
    (if i then .newWithKeypair .reference [7] { period := 1 }
      else .newReadonly [7] { period := 1 })
    1

/-- A transaction is submitted to each node, a block is produced, and it reaches the other node
twice.
-/
def pairTurns : List (ClusterTurn Milli Bool) :=
  let how : Reception Milli := { order := .ascending Milli, peerId := "" }
  [ .act true (.addTransaction (.action 8 1 0 (.chat "one")))
  , .act false (.addTransaction (.action 9 1 0 (.chat "two")))
  , .act true
      (.produce 0 (FinMap.ascending BitVec.toNat Address.toNat_injective) (.ascending Milli))
  , .deliver false 0 how
  , .deliver false 0 how ]

/-- An instance for evaluation whose hash keeps the leading 32 bytes, so that headers which differ
in their parent or number have different hashes.
-/
def leadingCrypto : Crypto :=
  { Crypto.disclosing with
    keccak256 := fun bytes => hashFromSlice ((bytes ++ List.replicate 32 0).take 32) }

/-- A pair of nodes whose formats know the given blocks. -/
def pairOf (blocks : List Block) : Cluster Milli Bool :=
  { host := { Host.reference blocks with crypto := leadingCrypto }
    messages := .ofTable (blocks.map .newBlock)
    validator := id }

/-- The formats know what the nodes announce. -/
def pair : Cluster Milli Bool :=
  pairOf (((pairOf []).run (.genesis 0) pairStart pairTurns).blocks (.genesis 0))

/-- The pair after its turns. -/
def pairNet : ClusterNet Milli Bool := pair.run (.genesis 0) pairStart pairTurns

theorem pair_fresh (i : Bool)
    : Archived pair.host [] (pairStart i).db ∧ (pairStart i).txpool = .new :=
  ⟨⟨rfl, rfl, rfl⟩, rfl⟩

theorem pair_collisionFree
    : Set.InjOn (BlockHeader.hash pair.host.crypto) (headersOf (pairNet.blocks (.genesis 0))) := by
  have distinct
      : ∀ left ∈ pairNet.blocks (.genesis 0), ∀ right ∈ pairNet.blocks (.genesis 0),
          left.header.hash pair.host.crypto = right.header.hash pair.host.crypto →
          left.header = right.header := by
    decide +kernel
  rintro _ ⟨left, isLeft, rfl⟩ _ ⟨right, isRight, rfl⟩ same
  exact distinct left isLeft right isRight same

theorem pair_readBack : ReadBack pair.host.blocks (pairNet.blocks (.genesis 0)) := by
  unfold ReadBack
  decide +kernel

theorem pair_messagesRead : ∀ m ∈ pairNet.published, pair.messages.RoundTripsAt m := by
  decide +kernel

theorem agreement_pair
    : ∃ block,
        (pairNet.parties false).chain.getBlockByNumber pair.host 1 = .ok (some block)
        ∧ (pairNet.parties true).chain.getBlockByNumber pair.host 1 = .ok (some block) :=
  (@agreement Milli _ Bool pair (.genesis 0) pairStart _ (by decide) rfl pair_fresh pairTurns
      pairNet rfl pair_collisionFree pair_readBack pair_messagesRead).2
    false true rfl 1 (by decide +kernel)

theorem transactions_stay_pair
    : (pairNet.parties false).chain.txpool.Holds (fun tx => tx ∈ submitted false pairTurns) :=
  (@transactions_stay Milli _ Bool pair (.genesis 0) pairStart _ (by decide) rfl pair_fresh
    pairTurns pairNet rfl pair_collisionFree pair_readBack pair_messagesRead).1 false

end Cluster

end VeloChain
