import VeloChain.Node.Chain

/-! Chain reorganization: the point where another branch forks off is searched for,
transactions of reverted blocks return to the pool, the head moves to the fork point, and the
blocks of the other branch are applied until one fails.
-/

namespace VeloChain

/-- Result of a chain reorganization. -/
structure ReorgOutcome where
  commonAncestor : UInt64
  blocksReverted : Nat
  blocksApplied : Nat
  newHead : UInt64
  deriving DecidableEq

namespace Chain

variable {F : Type} [F32 F] (host : Host F)

/-- Walk a branch down from the block of a hash until the index leads to a block of it, for at
most the given number of blocks. Without a common ancestor the answer is genesis.
-/
def findCommonAncestor (codecs : BlockCodecs) (db : Database)
    : Nat → B256 → Except StorageError UInt64
  | 0, _ => .ok 0
  | steps + 1, hash =>
      match db.getHeader codecs hash with
      | .error e => .error e
      | .ok none => .ok 0
      | .ok (some header) =>
          match db.getBlockHashByNumber header.number with
          | .error e => .error e
          | .ok entry =>
              if entry = some hash then .ok header.number
              else findCommonAncestor codecs db steps header.parentHash

/-- Detect whether a reorganization is needed: the fork point, or nothing if the incoming block
extends the chain, is not higher than the head or has no known parent.
-/
def detectFork (crypto : Crypto) (codecs : BlockCodecs) (db : Database)
    (currentHead incoming : BlockHeader) : Except NodeError (Option UInt64) :=
  if incoming.parentHash = currentHead.hash crypto then .ok none
  else if incoming.number ≤ currentHead.number then .ok none
  else
    match db.getHeader codecs incoming.parentHash with
    | .error e => .error (.storage e)
    | .ok none => .ok none
    | .ok (some parent) =>
        match db.getBlockHashByNumber parent.number with
        | .error e => .error (.storage e)
        | .ok entry =>
            if entry = some incoming.parentHash then .ok none
            else
              match findCommonAncestor codecs db currentHead.number.toNat
                  incoming.parentHash with
              | .error e => .error (.storage e)
              | .ok forkPoint => .ok (some forkPoint)

/-- The numbers of the blocks to revert, highest first. -/
def revertedNumbers (forkPoint currentHead : UInt64) : List UInt64 :=
  let first := (forkPoint + 1).toNat
  ((List.range' first (currentHead.toNat + 1 - first)).reverse).map UInt64.ofNat

/-- Return the transactions of one reverted block to the pool. -/
def revertBlock (number : UInt64) (chain : Chain F) : Except NodeError Unit × Chain F :=
  match chain.getBlockByNumber host number with
  | .error e => (.error e, chain)
  | .ok none => (.ok (), chain)
  | .ok (some block) =>
      (.ok (),
        { chain with
          txpool := block.body.transactions.foldl
            (fun pool tx => (pool.addTransaction host.crypto tx).2) chain.txpool })

/-- Apply one block of the new branch and count it. -/
def applyBranchBlock (entry : Block × BlockOrder F) (progress : Nat × Chain F)
    : Except NodeError Unit × (Nat × Chain F) :=
  match progress.2.applyBlock host entry.2 entry.1 with
  | (.ok (), chain) => (.ok (), (progress.1 + 1, chain))
  | (.error e, chain) => (.error e, (progress.1, chain))

/-- Reset the head to the fork block, if it is stored. -/
def rewind (fork : Option Block) (chain : Chain F) : Chain F :=
  match fork with
  | some block => chain.setHead block.header
  | none => chain

/-- Reset the head to the fork point and apply the new blocks until one fails. -/
def applyBranch (forkPoint : UInt64) (newBlocks : List (Block × BlockOrder F))
    (chain : Chain F) : Except NodeError Nat × Chain F :=
  match chain.getBlockByNumber host forkPoint with
  | .error e => (.error e, chain)
  | .ok fork =>
      -- a failing block only ends the loop; neither the head nor the state is restored
      let (applied, chain) :=
        (Loop.run (applyBranchBlock host) newBlocks (0, chain.rewind fork)).2
      (.ok applied, chain)

/-- Execute a chain reorganization. Each new block comes with the orders of its application. -/
def executeReorg (forkPoint : UInt64) (newBlocks : List (Block × BlockOrder F))
    (chain : Chain F) : Except NodeError ReorgOutcome × Chain F :=
  let currentHead := chain.blockNumber
  if forkPoint > currentHead then
    (.error (.internal "Fork point is ahead of current head"), chain)
  else
    match Loop.run (revertBlock host) (revertedNumbers forkPoint currentHead) chain with
    | (.error e, chain) => (.error e, chain)
    | (.ok (), chain) =>
        match chain.applyBranch host forkPoint newBlocks with
        | (.error e, chain) => (.error e, chain)
        | (.ok applied, chain) =>
            (.ok
              { commonAncestor := forkPoint
                blocksReverted := (currentHead - forkPoint).toNat
                blocksApplied := applied
                newHead := chain.blockNumber },
              chain)

variable {host}

omit [F32 F] in
/-- Reverting a block changes only the pool. -/
theorem revertBlock_frame (number : UInt64) (chain : Chain F)
    : ∃ txpool, (chain.revertBlock host number).2 = { chain with txpool } := by
  unfold revertBlock
  split
  next => exact ⟨chain.txpool, rfl⟩
  next => exact ⟨chain.txpool, rfl⟩
  next => exact ⟨_, rfl⟩

omit [F32 F] in
/-- Reverting any number of blocks changes only the pool. -/
theorem run_revertBlock_frame (numbers : List UInt64) (chain : Chain F)
    : ∃ txpool, (Loop.run (revertBlock host) numbers chain).2 = { chain with txpool } := by
  refine Loop.run_invariant (fun after => ∃ txpool, after = { chain with txpool }) ?_
    ⟨chain.txpool, rfl⟩
  intro number _ state same
  obtain ⟨txpool, rfl⟩ := same
  exact revertBlock_frame number _

/-- What survives every revert, which reads the database of before, the new head and every
block application holds after a reorganization, however many of its blocks are applied.
-/
theorem executeReorg_invariant (inv : Chain F → Prop) {chain : Chain F} {forkPoint : UInt64}
    {newBlocks : List (Block × BlockOrder F)} (start : inv chain)
    (reverting
      : ∀ state number, state.db = chain.db → inv state
          → inv (state.revertBlock host number).2)
    (rewinding
      : ∀ state block, inv state → forkPoint ≤ state.blockNumber
          → state.getBlockByNumber host forkPoint = .ok (some block)
          → inv (state.setHead block.header))
    (applying
      : ∀ state, ∀ entry ∈ newBlocks, inv state
          → inv (state.applyBlock host entry.2 entry.1).2)
    : inv (chain.executeReorg host forkPoint newBlocks).2 := by
  by_cases ahead : forkPoint > chain.blockNumber
  · simpa only [executeReorg, ahead, if_true] using start
  · have reverted
        : inv (Loop.run (revertBlock host) (revertedNumbers forkPoint chain.blockNumber)
            chain).2 := by
      refine (Loop.run_invariant (fun state => state.db = chain.db ∧ inv state) ?_
        ⟨rfl, start⟩).2
      rintro number _ state ⟨sameDb, held⟩
      obtain ⟨txpool, frame⟩ := @revertBlock_frame F host number state
      exact ⟨by rw [frame]; exact sameDb, reverting state number sameDb held⟩
    obtain ⟨txpool, frame⟩ := @run_revertBlock_frame F host
      (revertedNumbers forkPoint chain.blockNumber) chain
    rcases hr : Loop.run (revertBlock host) (revertedNumbers forkPoint chain.blockNumber) chain
      with ⟨_ | _, middle⟩
    · simpa only [executeReorg, ahead, if_false, hr] using reverted
    · rw [hr] at reverted frame
      simp only at reverted frame
      have height : forkPoint ≤ middle.blockNumber := by
        rw [frame]
        exact UInt64.not_lt.mp ahead
      have branch : inv (middle.applyBranch host forkPoint newBlocks).2 := by
        unfold applyBranch
        cases found : middle.getBlockByNumber host forkPoint with
        | error e => exact reverted
        | ok fork =>
            have rewound : inv (middle.rewind fork) := by
              cases fork with
              | none => exact reverted
              | some block => exact rewinding middle block reverted height found
            refine Loop.run_invariant (fun (progress : Nat × Chain F) => inv progress.2) ?_ rewound
            intro entry member progress held
            have applied := applying progress.2 entry member held
            unfold applyBranchBlock
            rcases call : progress.2.applyBlock host entry.2 entry.1 with ⟨_ | _, next⟩
            · simpa only [call] using applied
            · simpa only [call] using applied
      rcases hb : middle.applyBranch host forkPoint newBlocks with ⟨_ | _, final⟩
      · simpa only [executeReorg, ahead, if_false, hr, hb] using branch
      · simpa only [executeReorg, ahead, if_false, hr, hb] using branch

end Chain

end VeloChain
