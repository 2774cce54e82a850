import VeloChain.Node.Progress

/-! What the roots and the gas of a header say about the execution of its block.
The producer seals the header before the block is executed, with zero roots and the gas of the
selection; block application computes the roots and drops them. So every chain that accepts a
block at all also accepts it under another root.
-/

namespace VeloChain

namespace Chain

variable {F : Type} [F32 F] {host : Host F}

/-- The account root that the application of a block commits. -/
def Accepted.stateRoot {order : BlockOrder F} {block : Block} {chain : Chain F}
    (accepted : Accepted host order block chain) : B256 :=
  let db := chain.db.putGameState "world".toUTF8.toList
    (accepted.world.serializeState host.ecs order.persist)
  (accepted.processed.state.commit host.account db host.crypto.keccak256
    order.dirtyAccounts).1

/-- The header of a block states what its execution gives: the account root, the game root and
the gas.
-/
structure Accepted.Commits {order : BlockOrder F} {block : Block} {chain : Chain F}
    (accepted : Accepted host order block chain) : Prop where
  stateRoot : block.header.stateRoot = accepted.stateRoot
  gameStateRoot : block.header.gameStateRoot = accepted.root
  gasUsed : block.header.gasUsed = accepted.executed.cumulativeGas

/-- The headers of the blocks that a chain produces and accepts state what execution gives, so
that a node which comes to a head with the same hash has the same roots.
-/
structure CommitsHeaders (host : Host F) (chain : Chain F) : Prop where
  emitted
    : ∀ now senders order block next,
        chain.produceBlock host now senders order = (.ok block, next) →
        ∀ accepted : Accepted host order block (chain.prepareOnly host now), accepted.Commits
  accepted
    : ∀ order block (accepted : Accepted host order block chain), accepted.Commits
  agrees
    : ∀ (other : Chain F) order order' block block'
        (left : Accepted host order block chain) (right : Accepted host order' block' other),
        block.hash host.crypto = block'.hash host.crypto
        → (block.hash host.crypto = block'.hash host.crypto → block.header = block'.header)
        → left.stateRoot = right.stateRoot ∧ left.root = right.root

/-- An empty block on top of a header, with a given account root. -/
def emptyBlockOn (host : Host F) (parent : BlockHeader) (stateRoot : B256) : Block :=
  Block.new
    { BlockHeader.genesis 0 with
      parentHash := parent.hash host.crypto
      number := parent.number + 1
      timestamp := parent.timestamp + 1
      gameTick := parent.gameTick + 1
      stateRoot }
    []

/-- An empty block is accepted under every account root, and executes alike under all of them. -/
theorem exists_accepted_emptyBlockOn {chain : Chain F} {parent : BlockHeader}
    (head : chain.head = some parent) (early : parent.timestamp.toNat + 1 < 2 ^ 64)
    (order : BlockOrder F)
    : ∃ root, ∀ stateRoot,
        ∃ accepted : Accepted host order (emptyBlockOn host parent stateRoot) chain,
          accepted.stateRoot = root := by
  let executed := Execution.start host chain.db [] 0 chain.evm chain.state
  let processed := executed.flush host chain.db order.evmAccounts
  obtain ⟨root, world, ticks⟩
      : ∃ root world,
          chain.gameWorld.tick host.crypto host.ecs order.tick [] = (.ok root, world) :=
    ⟨_, _, rfl⟩
  have verified (stateRoot : B256)
      : chain.consensus.verifyBlock host.crypto (emptyBlockOn host parent stateRoot) parent
        = .ok () := by
    refine PoaConsensus.verifyBlock_of_followsParent ⟨rfl, rfl, ?_, rfl, rfl⟩ rfl
    change parent.timestamp < parent.timestamp + 1
    rw [UInt64.lt_iff_toNat_lt, UInt64.toNat_add]
    exact (Nat.lt_succ_self _).trans_eq (Nat.mod_eq_of_lt early).symm
  let db := chain.db.putGameState "world".toUTF8.toList
    (world.serializeState host.ecs order.persist)
  exact ⟨(processed.state.commit host.account db host.crypto.keccak256 order.dirtyAccounts).1,
    fun stateRoot =>
    ⟨⟨parent, ⟨[], [], 0⟩, executed, processed, root, world, head, verified stateRoot, rfl, rfl,
      rfl, ticks⟩, rfl⟩⟩

/-- The headers commit to the execution exactly in a chain that accepts no block: it has no head,
or the timestamp of the head is the last one.
-/
theorem commitsHeaders_iff {chain : Chain F}
    : chain.CommitsHeaders host
      ↔ ∀ parent, chain.head = some parent → parent.timestamp.toNat + 1 = 2 ^ 64 := by
  constructor
  · intro commits parent head
    by_contra notLast
    have early : parent.timestamp.toNat + 1 < 2 ^ 64 :=
      lt_of_le_of_ne parent.timestamp.toNat_lt notLast
    obtain ⟨order⟩ := @BlockOrder.nonempty F
    obtain ⟨root, accepts⟩ :=
      @exists_accepted_emptyBlockOn F _ host chain parent head early order
    obtain ⟨accepted, isRoot⟩ := accepts (root + 1)
    have same := (commits.accepted order _ accepted).stateRoot
    rw [isRoot] at same
    exact absurd same (by change root + 1 ≠ root; simp)
  · intro late
    have refuses {chain' : Chain F} (sameHead : chain'.head = chain.head) {order : BlockOrder F}
        {block : Block}
        : Accepted host order block chain' → False := by
      intro accepted
      have last := late accepted.parent (sameHead.symm.trans accepted.head)
      have later := UInt64.lt_iff_toNat_lt.mp
        (PoaConsensus.verifyBlock_header accepted.verified).timestamp
      have bound := block.header.timestamp.toNat_lt
      omega
    constructor
    · intro now senders order block next _ accepted
      refine (refuses ?_ accepted).elim
      unfold prepareOnly
      split <;> rfl
    · intro order block accepted
      exact (refuses rfl accepted).elim
    · intro other order order' block block' left right _ _
      exact (refuses rfl left).elim

/-- A validator produces an empty block on genesis; the tick gives the world a root, but the
header does not have it.
-/
theorem commitsHeaders_fails_on_emptyBlock
    : ¬ (Chain.reference (.reference []) .reference 9 5).CommitsHeaders (.reference []) := by
  intro commits
  let host : Host Milli := .reference []
  let order : BlockOrder Milli := .ascending Milli
  let chain : Chain Milli := .reference host .reference 9 5
  let block : Block :=
    (chain.produceBlock host 5 sendersAscending order).1.toOption.getD (Block.new (.genesis 0) [])
  have produced : (chain.produceBlock host 5 sendersAscending order).1 = .ok block := by
    decide +kernel
  have applies : ((chain.prepareOnly host 5).applyBlock host order block).1 = .ok () := by
    decide +kernel
  obtain ⟨accepted, _⟩ := applyBlock_ok_iff.mp (Loop.eq_of_ok applies)
  have same := (commits.emitted 5 sendersAscending order block _ (Loop.eq_of_ok produced)
    accepted).gameStateRoot
  have noActions : accepted.parts.gameActions = [] := by
    have parts := congrArg (fun result => result.2.gameActions) accepted.partitioned
    exact parts.symm.trans (by decide +kernel)
  have ticks := congrArg Prod.fst accepted.ticks
  rw [noActions] at ticks
  have root : (chain.gameWorld.tick host.crypto host.ecs order.tick []).1 = .ok 1 := by
    decide +kernel
  have isOne : 1 = accepted.root := Except.ok.inj (root.symm.trans ticks)
  have isZero : block.header.gameStateRoot = 0 := by decide +kernel
  rw [← isOne, isZero] at same
  exact absurd same (by decide)

end Chain

end VeloChain
