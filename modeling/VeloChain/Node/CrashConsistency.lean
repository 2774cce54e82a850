import VeloChain.Node.CrashRecovery
import VeloChain.Node.LosslessHost

/-! A process that stops between two writes of a block application.
The writes are not one batch, so a restarted node can find some of them only. What it finds is
all or nothing just for blocks that leave game state, accounts and receipts as they are stored:
then the latest block number is the one write that shows.
-/

namespace VeloChain.Chain

open CommitPoint

variable {F : Type} [F32 F] {host : Host F} {order : BlockOrder F} {block : Block}
  {chain : Chain F}

/-- Wherever the process stops between the writes of the block, a restarted node finds what it
would have found before the block, or what it would have found after it.
-/
def CrashConsistent (accepted : Accepted host order block chain) : Prop :=
  ∀ n,
    recovered host chain (chain.db.replay (accepted.puts.take n)) = recovered host chain chain.db
    ∨ recovered host chain (chain.db.replay (accepted.puts.take n))
      = recovered host accepted.result accepted.result.db

/-- The block changes nothing that is stored beside its own header and number: it is empty,
every uncommitted account is stored as it is, and the game world rests in the stored entities.
-/
structure LeavesNoTrace (host : Host F) (block : Block) (chain : Chain F) : Prop where
  empty : block.body.transactions = []
  committed
    : ∀ address account, chain.state.dirtyAccounts.lookup address = some account →
        WorldState.committedView host.account chain.db address = .ok (some account)
  resting
    : ∃ data stored,
        chain.db.getGameState "world".toUTF8.toList = some data
        ∧ host.ecs.decode data = .ok stored
        ∧ GameWorld.Resting stored chain.gameWorld
  fresh
    : ∀ head, chain.head = some head → block.hash host.crypto ≠ head.hash host.crypto

-----------------------------------------------------------------------------------------
-- Blocks without transactions
-----------------------------------------------------------------------------------------

section Empty

/-- Every transaction of a block has a receipt. -/
theorem Accepted.empty_of_receipts (accepted : Accepted host order block chain)
    (none : accepted.processed.receipts = [])
    : block.body.transactions = [] := by
  have entries := accepted.receipts_entries
  rw [none, List.map_nil, eq_comm, List.map_eq_nil_iff, List.append_eq_nil_iff] at entries
  apply List.eq_nil_iff_forall_not_mem.mpr
  intro tx member
  cases isGame : tx.isGameAction with
  | false =>
      have evm : tx ∈ block.evmTxs := List.mem_filter.mpr ⟨member, by simp [isGame]⟩
      rw [entries.1] at evm
      cases evm
  | true =>
      have game : tx ∈ block.gameTxs := List.mem_filter.mpr ⟨member, isGame⟩
      rw [entries.2] at game
      cases game

/-- The passes over an empty block leave the accounts alone and write no receipts. -/
theorem Accepted.processed_of_empty (accepted : Accepted host order block chain)
    (empty : block.body.transactions = [])
    : accepted.processed.state = chain.state ∧ accepted.processed.receipts = [] := by
  have txs : block.evmTxs = [] := by rw [Block.evmTxs, empty, List.filter_nil]
  have executes := accepted.evmEnd_eq.1
  rw [txs, evmStart, accepted.evmTxs, txs] at executes
  have executed := (Prod.mk.inj executes).2
  have none : order.evmAccounts.keys accepted.executed.evm.db.accounts = [] := by
    apply List.eq_nil_iff_forall_not_mem.mpr
    intro address member
    rw [← executed] at member
    exact absurd ((order.evmAccounts.mem_keys _ _).mp member) Finmap.notMem_empty
  have flushed : accepted.executed.flush host chain.db order.evmAccounts = accepted.executed := by
    rw [Execution.flush, EvmExecutor.flushToState, none, Loop.run_nil]
  have processes := accepted.processes
  rw [flushed, Execution.runGame, empty, Loop.run_nil] at processes
  have processed := (Prod.mk.inj processes).2
  rw [← processed, ← executed]
  exact ⟨rfl, rfl⟩

/-- The tick for an empty block has no actions. -/
theorem Accepted.world_of_empty (accepted : Accepted host order block chain)
    (empty : block.body.transactions = [])
    : accepted.world = (chain.gameWorld.tick host.crypto host.ecs order.tick []).2 := by
  have parts := (Partition.ofBlock_parts accepted.partitioned).2
  rw [empty] at parts
  have ticks := accepted.ticks
  rw [parts] at ticks
  exact (congrArg Prod.snd ticks).symm

end Empty

-----------------------------------------------------------------------------------------
-- Writes that do not show
-----------------------------------------------------------------------------------------

section Unnoticed

variable {db : Database} {head : BlockHeader} {latest : UInt64}

/-- A database in which a restarted node finds what it would have found before the block. -/
structure Unnoticed (host : Host F) (chain : Chain F) (head : BlockHeader) (latest : UInt64)
    (db : Database) : Prop where
  accounts
    : WorldState.committedView host.account db = WorldState.committedView host.account chain.db
  gameWorld
    : restoredWorld host db chain.gameWorld.seed
      = restoredWorld host chain.db chain.gameWorld.seed
  anchored : Anchored host db head latest
  receipts : db.contents .receipts = chain.db.contents .receipts

theorem Unnoticed.recovered (unnoticed : Unnoticed host chain head latest db)
    (anchored : Anchored host chain.db head latest)
    : recovered host chain db = recovered host chain chain.db := by
  have receipts : db.getReceipt = chain.db.getReceipt := by
    funext txHash
    rw [Database.getReceipt, Database.getCf, unnoticed.receipts]
    rfl
  rw [recovered_eq, recovered_eq, unnoticed.accounts, unnoticed.gameWorld, receipts,
    unnoticed.anchored.stored.storedHead, anchored.stored.storedHead,
    unnoticed.anchored.stored.number, anchored.stored.number]

/-- A write to another column family does not change accounts and game world. -/
theorem Unnoticed.put_other (unnoticed : Unnoticed host chain head latest db)
    (cf : ColumnFamily) (notState : .gameState ≠ cf) (notReceipts : .receipts ≠ cf)
    {key value : Bytes} (anchored : Anchored host (db.putCf cf key value) head latest)
    : Unnoticed host chain head latest (db.putCf cf key value) := by
  have state : (db.putCf cf key value).contents .gameState = db.contents .gameState :=
    Database.contents_putCf_of_ne notState key value
  refine ⟨?_, ?_, anchored, ?_⟩
  · exact (WorldState.committedView_congr host.account state).trans unnoticed.accounts
  · rw [restoredWorld_congr (Database.getGameState_congr state _), unnoticed.gameWorld]
  · exact (Database.contents_putCf_of_ne notReceipts key value).trans unnoticed.receipts

/-- A write of what is stored changes nothing. -/
theorem Unnoticed.put_account (sound : host.account.RoundTrips)
    (unnoticed : Unnoticed host chain head latest db) {address : Address} {account : Account}
    (stored : WorldState.committedView host.account chain.db address = .ok (some account))
    : Unnoticed host chain head latest
        (db.putGameState (addressSlice address) (host.account.encode account)) := by
  have kept
      : (db.putGameState (addressSlice address) (host.account.encode account)).getGameState
            "world".toUTF8.toList
        = db.getGameState "world".toUTF8.toList := by
    simp only [Database.getGameState, Database.putGameState, Database.getCf,
      Database.contents_putCf, (addressSlice_ne_world address).symm, and_false, if_false]
  refine ⟨?_, ?_, unnoticed.anchored.put_other (Or.inl rfl) _ _, ?_⟩
  · rw [WorldState.committedView_putAccount (sound account), unnoticed.accounts, ← stored,
      Function.update_eq_self]
  · rw [restoredWorld_congr kept, unnoticed.gameWorld]
  · exact (Database.contents_putCf_of_ne (by decide) _ _).trans unnoticed.receipts

/-- A world with the stored entities is restored as the stored one. -/
theorem Unnoticed.put_world (unnoticed : Unnoticed host chain head latest db)
    {data data' : Bytes} {stored : EcsWorld F}
    (found : chain.db.getGameState "world".toUTF8.toList = some data)
    (reads : host.ecs.decode data = .ok stored) (reads' : host.ecs.decode data' = .ok stored)
    : Unnoticed host chain head latest (db.putGameState "world".toUTF8.toList data') := by
  have written
      : (db.putGameState "world".toUTF8.toList data').getGameState "world".toUTF8.toList
        = some data' := by
    simp only [Database.getGameState, Database.putGameState, Database.getCf,
      Database.contents_putCf, and_self, if_true]
  refine ⟨?_, ?_, unnoticed.anchored.put_other (Or.inl rfl) _ _, ?_⟩
  · rw [committedView_putWorld, unnoticed.accounts]
  · rw [restoredWorld_of_decode written reads', restoredWorld_of_decode found reads]
  · exact (Database.contents_putCf_of_ne (by decide) _ _).trans unnoticed.receipts

end Unnoticed

-----------------------------------------------------------------------------------------
-- Crash consistency and its condition
-----------------------------------------------------------------------------------------

section Consistency

/-- A node restarted after the block has its whole log. -/
theorem Accepted.recovered_result (accepted : Accepted host order block chain)
    : recovered host accepted.result accepted.result.db
      = recovered host chain (chain.db.replay accepted.puts) := by
  have seed : accepted.result.gameWorld.seed = chain.gameWorld.seed := by
    have ticked := @GameWorld.seed_tick F _ host.crypto host.ecs order.tick
      accepted.parts.gameActions chain.gameWorld
    rwa [accepted.ticks] at ticked
  rw [recovered_eq, recovered_eq, seed, accepted.db_result]

theorem crashConsistent_iff_allOrNothing {accepted : Accepted host order block chain}
    : CrashConsistent accepted
      ↔ AllOrNothing Put.run (recovered host chain) accepted.puts chain.db := by
  unfold CrashConsistent AllOrNothing
  rw [accepted.recovered_result]

variable (headers : host.blocks.header.RoundTrips) (accounts : host.account.RoundTrips)
  (entities : host.ecs.RoundTrips)

/-- A node that rests in the stored entities has given out no further ids. -/
theorem Steady.idleTick_eq_iff (steady : Steady host chain) {data : Bytes} {stored : EcsWorld F}
    (found : chain.db.getGameState "world".toUTF8.toList = some data)
    (reads : host.ecs.decode data = .ok stored) (order : TickOrder F)
    : (chain.gameWorld.tick host.crypto host.ecs order []).2.ecs = stored
      ↔ GameWorld.Resting stored chain.gameWorld := by
  have behind := steady.entities
  simp only [restoredWorld, found, GameWorld.fromState, reads] at behind
  exact GameWorld.ecs_idleTick_eq_iff steady.known behind order

include headers

/-- Before its number is the latest one, nothing of a crash consistent block shows. From then
on all of it does.
-/
theorem CrashConsistent.recovered {accepted : Accepted host order block chain}
    (consistent : CrashConsistent accepted) (steady : Steady host chain)
    : Chain.recovered host chain (chain.db.replay accepted.pendingPuts)
        = Chain.recovered host chain chain.db
      ∧ Chain.recovered host chain accepted.announced
        = Chain.recovered host chain (chain.db.replay accepted.puts) := by
  obtain ⟨head, latest, isHead, anchored⟩ := steady.anchored
  obtain ⟨grows, _⟩ := (accepted.follows_head isHead).aged anchored.aged
  have other : latest ≠ block.number :=
    UInt64.ne_of_lt (UInt64.lt_of_le_of_lt anchored.below grows)
  obtain ⟨_, pending, _⟩ :=
    accepted.anchored_pending headers anchored isHead accepted.pendingPuts.length
  rw [List.take_length] at pending
  have announced := accepted.anchored_announced headers anchored isHead
  have whole := accepted.anchored_receipts headers anchored isHead
    (receiptPuts host (block.hash host.crypto) accepted.processed.receipts).length
  rw [List.take_length, ← accepted.db_announced, accepted.db_result] at whole
  have atomic := crashConsistent_iff_allOrNothing.mp consistent
  rw [accepted.puts_eq] at atomic whole ⊢
  constructor
  · apply AllOrNothing.before Recovered.latestBlockNumber atomic
    simp only [recovered_latestBlockNumber, pending.stored.number, whole.stored.number, ne_eq,
      Except.ok.injEq, Option.some.injEq, other, not_false_eq_true]
  · rw [List.append_cons] at atomic ⊢
    have last
        : chain.db.replay (accepted.pendingPuts ++ [Database.latestPut block.number])
          = accepted.announced :=
      replay_append _ _ _
    rw [← last] at announced ⊢
    apply AllOrNothing.after Recovered.latestBlockNumber atomic
    simp only [recovered_latestBlockNumber, announced.stored.number, anchored.stored.number,
      ne_eq, Except.ok.injEq, Option.some.injEq, other.symm, not_false_eq_true]

/-- In a crash consistent block the last receipt has been stored before. -/
theorem CrashConsistent.receipt_stored {accepted : Accepted host order block chain}
    (consistent : CrashConsistent accepted) (steady : Steady host chain)
    {earlier : List TransactionReceipt} {last : TransactionReceipt}
    (ends : accepted.processed.receipts = earlier.concat last)
    : chain.db.getReceipt last.txHash
      = some (host.receiptJson { last with blockHash := block.hash host.crypto }) := by
  obtain ⟨before, after⟩ := consistent.recovered headers steady
  have atStart := congrFun (congrArg Recovered.receipts before) last.txHash
  have atEnd := congrFun (congrArg Recovered.receipts after) last.txHash
  simp only [recovered_receipts] at atStart atEnd
  have announced
      : accepted.announced.getReceipt last.txHash
        = (chain.db.replay accepted.pendingPuts).getReceipt last.txHash := by
    rw [Database.getReceipt, Database.getCf]
    exact congrFun (Database.contents_putLatestBlockNumber (by decide) _ _) _
  rw [← atStart, ← announced, atEnd, ← accepted.db_result, accepted.db_announced, ends,
    receiptPuts, List.map_concat, List.concat_eq_append, Database.replay, replay_append]
  simp only [Database.getReceipt, Database.getCf, replay, List.foldl_cons, List.foldl_nil,
    Put.run, Database.contents_putCf, and_self, if_true]

include accounts entities

/-- No write before the commit point shows. -/
theorem LeavesNoTrace.put (trace : LeavesNoTrace host block chain) (steady : Steady host chain)
    (accepted : Accepted host order block chain) {head : BlockHeader} {latest : UInt64}
    (isHead : chain.head = some head) (anchored : Anchored host chain.db head latest)
    {put : Put}
    (pending : PendingPut host order block accepted.processed accepted.world put)
    {db : Database} (unnoticed : Unnoticed host chain head latest db)
    : Unnoticed host chain head latest (put.run db) := by
  obtain ⟨grows, aged⟩ := (accepted.follows_head isHead).aged anchored.aged
  cases pending with
  | world =>
      obtain ⟨data, stored, found, reads, resting⟩ := trace.resting
      have same := (steady.idleTick_eq_iff found reads order.tick).mpr resting
      rw [← accepted.world_of_empty trace.empty] at same
      have reads'
          : host.ecs.decode (accepted.world.serializeState host.ecs order.persist)
            = .ok stored :=
        same ▸ entities accepted.world.ecs order.persist
      exact unnoticed.put_world found reads reads'
  | account dirty =>
      rw [(accepted.processed_of_empty trace.empty).1] at dirty
      exact unnoticed.put_account accounts (trace.committed _ _ dirty)
  | header =>
      have kept := unnoticed.anchored.put_header headers (UInt64.le_of_lt grows) aged
      have other : block.header.hash host.crypto ≠ head.hash host.crypto :=
        trace.fresh head isHead
      rw [if_neg other] at kept
      exact unnoticed.put_other .headers (by decide) (by decide) kept
  | number =>
      have other : latest ≠ block.number :=
        UInt64.ne_of_lt (UInt64.lt_of_le_of_lt anchored.below grows)
      exact unnoticed.put_other .blockNumberToHash (by decide) (by decide)
        (unnoticed.anchored.put_number other _)
  | content cf =>
      have kept := unnoticed.anchored.put_other (Or.inr cf) put.key put.value
      rcases cf with cf | cf <;>
        exact unnoticed.put_other put.cf (by rw [cf]; decide) (by rw [cf]; decide) kept

theorem LeavesNoTrace.crashConsistent (trace : LeavesNoTrace host block chain)
    (steady : Steady host chain) (accepted : Accepted host order block chain)
    : CrashConsistent accepted := by
  obtain ⟨head, latest, isHead, anchored⟩ := steady.anchored
  rw [crashConsistent_iff_allOrNothing, accepted.puts_eq]
  apply AllOrNothing.of_commitPoint
  · refine @Hidden.of_invariant Put Database (Recovered F) Put.run (recovered host chain)
      (Unnoticed host chain head latest) _ _ ?_ ⟨rfl, rfl, anchored, rfl⟩ ?_
    · intro put member db unnoticed
      exact trace.put headers accounts entities steady accepted isHead anchored
        (pendingPut_of_mem host member) unnoticed
    · intro db unnoticed
      exact unnoticed.recovered anchored
  · rw [(accepted.processed_of_empty trace.empty).2]
    intro n
    rw [receiptPuts, List.map_nil, List.take_nil]
    rfl

variable (receipts : Function.Injective host.receiptJson)

omit accounts entities

include receipts

/-- A crash consistent block has no transactions: its last receipt would have to be stored before,
with a number that no receipt has yet.
-/
theorem CrashConsistent.empty {accepted : Accepted host order block chain}
    (consistent : CrashConsistent accepted) (steady : Steady host chain)
    : block.body.transactions = [] := by
  obtain ⟨head, latest, isHead, anchored⟩ := steady.anchored
  obtain ⟨grows, _⟩ := (accepted.follows_head isHead).aged anchored.aged
  apply accepted.empty_of_receipts
  rcases List.eq_nil_or_concat accepted.processed.receipts with none | ⟨earlier, last, ends⟩
  · exact none
  · have member : last ∈ accepted.processed.receipts := by simp [ends]
    obtain ⟨receipt, same, old⟩ := anchored.receipts _ _
      (consistent.receipt_stored headers steady ends)
    rw [← receipts same] at old
    change last.blockNumber ≤ head.number at old
    rw [accepted.receipts_blockNumber member] at old
    exact absurd grows (UInt64.not_lt.mpr old)

omit receipts

/-- A crash consistent block does not have the hash of the head: the stored head would be its own
header.
-/
theorem CrashConsistent.fresh {accepted : Accepted host order block chain}
    (consistent : CrashConsistent accepted) (steady : Steady host chain) {head : BlockHeader}
    (isHead : chain.head = some head)
    : block.header.hash host.crypto ≠ head.hash host.crypto := by
  intro same
  have sameHash : head.hash host.crypto = block.hash host.crypto := same.symm
  obtain ⟨other, latest, isOther, anchored⟩ := steady.anchored
  obtain rfl := Option.some.inj (isHead.symm.trans isOther)
  obtain ⟨grows, _⟩ := (accepted.follows_head isHead).aged anchored.aged
  have headKept := congrArg Recovered.head (consistent.recovered headers steady).1
  simp only [recovered_head] at headKept
  obtain ⟨head', pending, _⟩ :=
    accepted.anchored_pending headers anchored isHead accepted.pendingPuts.length
  rw [List.take_length] at pending
  rw [pending.stored.storedHead, anchored.stored.storedHead, Option.some.injEq] at headKept
  have found := pending.stored.stored
  rw [headKept, Accepted.pendingPuts,
    replay_pendingPuts host order block accepted.processed accepted.world chain,
    Database.getHeader_putBlock host.crypto (headers block.header), if_pos sameHash] at found
  have isBlock : block.header = head := by simpa using found
  rw [isBlock] at grows
  exact absurd grows (UInt64.lt_irrefl _)

include accounts entities receipts

/-- A block whose writes are all or nothing leaves no trace: accounts and game world do not
change before its number is the latest one, nor receipts afterwards.
-/
theorem CrashConsistent.leavesNoTrace {accepted : Accepted host order block chain}
    (consistent : CrashConsistent accepted) (steady : Steady host chain)
    : LeavesNoTrace host block chain := by
  have empty := consistent.empty headers receipts steady
  have before := (consistent.recovered headers steady).1
  have accountsKept := congrArg Recovered.accounts before
  have worldKept := congrArg Recovered.gameWorld before
  simp only [recovered_accounts, recovered_gameWorld] at accountsKept worldKept
  have committed
      : (chain.db.replay accepted.pendingPuts).contents .gameState
        = (accepted.processed.state.commit host.account
            (chain.worldStored host order accepted.world) host.crypto.keccak256
            order.dirtyAccounts).2.2.contents .gameState := by
    rw [Accepted.pendingPuts,
      replay_pendingPuts host order block accepted.processed accepted.world chain]
    exact Database.contents_putBlock_of_ne (by decide) (by decide) (by decide) (by decide)
  refine ⟨empty, ?_, ?_, fun head isHead => consistent.fresh headers steady isHead⟩
  · intro address account dirty
    rw [← (accepted.processed_of_empty empty).1] at dirty
    rw [← accountsKept, WorldState.committedView_congr host.account committed,
      WorldState.committedView_commit _ accounts, dirty]
  · have written := (Database.getGameState_congr committed "world".toUTF8.toList).trans
      (getGameState_commit host order accepted.processed accepted.world chain)
    have reads
        : host.ecs.decode (accepted.world.serializeState host.ecs order.persist)
          = .ok accepted.world.ecs :=
      entities accepted.world.ecs order.persist
    rw [restoredWorld_of_decode written reads] at worldKept
    rcases @restoredWorld_cases F host _ chain.db chain.gameWorld.seed
      with ⟨data, world, found, decodes⟩ | settled
    · refine ⟨data, world, found, decodes, (steady.idleTick_eq_iff found decodes order.tick).mp ?_⟩
      rw [restoredWorld_of_decode found decodes, GameWorld.mk.injEq] at worldKept
      rw [← accepted.world_of_empty empty, worldKept.1]
    · rw [← worldKept] at settled
      exact absurd settled (SpawnManager.unspawned_generateSpawnPoints _ _).not_settled

end Consistency

/-- In every run of a node, whatever it was stopped in before, an applied block is crash
consistent exactly when it leaves no trace.
-/
theorem crashConsistent_iff (headers : host.blocks.header.RoundTrips)
    (accounts : host.account.RoundTrips) (entities : host.ecs.RoundTrips)
    (receipts : Function.Injective host.receiptJson) (reachable : Reachable host chain)
    (accepted : Accepted host order block chain)
    : CrashConsistent accepted ↔ LeavesNoTrace host block chain := by
  have steady := reachable.steady headers entities
  constructor
  · intro consistent
    exact consistent.leavesNoTrace headers accounts entities receipts steady
  · intro trace
    exact trace.crashConsistent headers accounts entities steady accepted

section EmptyBlock

/-- A node that has just been initialized. -/
def initializedChain : Chain Milli :=
  initialized .lossless (.newReadonly [7] { period := 1 }) 1 0 []
    (BlockOrder.ascending Milli).dirtyAccounts (BlockOrder.ascending Milli).persist

theorem reachable_initializedChain : Reachable .lossless initializedChain :=
  .init (.newReadonly [7] { period := 1 }) 1 0 [] (BlockOrder.ascending Milli).dirtyAccounts
    (BlockOrder.ascending Milli).persist

/-- An empty block on top of its genesis block. -/
def emptyBlock : Block :=
  Block.following
    (.genesis ((GameWorld.new Host.lossless.crypto.keccak256 0 : GameWorld Milli).ecs.stateHash
      Host.lossless.crypto.keccak256 Host.lossless.ecs (BlockOrder.ascending Milli).persist)) []

theorem accepts_emptyBlock
    : ∃ next,
        initializedChain.applyBlock .lossless (.ascending Milli) emptyBlock
        = (.ok (), next) := by
  refine applyBlock_accepts_iff.mpr ⟨⟨_, rfl, ?_⟩, ?_, ?_⟩
  · apply PoaConsensus.verifyBlock_of_followsParent
    · exact ⟨rfl, rfl, by decide, rfl, rfl⟩
    · rfl
  · intro tx member
    cases member
  · trivial

theorem crashConsistent_iff_emptyBlock
    : ∃ accepted : Accepted .lossless (.ascending Milli) emptyBlock initializedChain,
        CrashConsistent accepted ↔ LeavesNoTrace .lossless emptyBlock initializedChain := by
  obtain ⟨next, applied⟩ := accepts_emptyBlock
  obtain ⟨accepted, _⟩ := applyBlock_ok_iff.mp applied
  exact ⟨accepted, crashConsistent_iff Host.lossless_headers Host.lossless_accounts
    Host.lossless_entities Host.lossless_receipts reachable_initializedChain accepted⟩

/-- Already the first write of the first block shows: it stores a game world. -/
theorem crashConsistent_fails_on_emptyBlock
    : ¬ ∀ (host : Host Milli) (order : BlockOrder Milli) (block : Block) (chain : Chain Milli),
        host.blocks.header.RoundTrips
        → host.account.RoundTrips
        → host.ecs.RoundTrips
        → Function.Injective host.receiptJson
        → Reachable host chain
        → ∀ accepted : Accepted host order block chain, CrashConsistent accepted := by
  intro claimed
  obtain ⟨next, applied⟩ := accepts_emptyBlock
  obtain ⟨accepted, _⟩ := applyBlock_ok_iff.mp applied
  have consistent := claimed _ _ _ _ Host.lossless_headers Host.lossless_accounts
    Host.lossless_entities Host.lossless_receipts reachable_initializedChain accepted
  have trace := consistent.leavesNoTrace Host.lossless_headers Host.lossless_accounts
    Host.lossless_entities Host.lossless_receipts
    (reachable_initializedChain.steady Host.lossless_headers Host.lossless_entities)
  obtain ⟨data, stored, found, _⟩ := trace.resting
  rw [initializedChain, getGameState_initialized] at found
  cases found

end EmptyBlock

end VeloChain.Chain
