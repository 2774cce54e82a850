import VeloChain.Node.CanonicalIndex
import VeloChain.Node.Growth

/-! What a reorganization does on an indexed chain: the transactions above the fork point go
to the pool, the head moves to the fork block, and the branch is imported up to the first
block that fails.
-/

namespace VeloChain.Chain

variable {F : Type} [F32 F] {host : Host F}

/-- The branch is imported as a whole, or up to a block that fails; counting goes along. By
induction on the branch.
-/
theorem run_applyBranchBlock (newBlocks : List (Block × BlockOrder F)) (count : Nat)
    (chain : Chain F)
    : (∃ final,
        Loop.run (importBlock host) newBlocks chain = (.ok (), final)
        ∧ (Loop.run (applyBranchBlock host) newBlocks (count, chain)).2
          = (count + newBlocks.length, final))
      ∨ ∃ applied failing rest middle e stop,
          newBlocks = applied ++ failing :: rest
          ∧ Loop.run (importBlock host) applied chain = (.ok (), middle)
          ∧ importBlock host failing middle = (.error e, stop)
          ∧ (Loop.run (applyBranchBlock host) newBlocks (count, chain)).2
            = (count + applied.length, stop) := by
  induction newBlocks generalizing count chain with
  | nil => exact Or.inl ⟨chain, rfl, rfl⟩
  | cons entry rest ih =>
      rcases Loop.body_cases (importBlock host) entry chain with ⟨next, hb⟩ | ⟨e, stop, hb⟩
      · have counted
            : applyBranchBlock host entry (count, chain) = (.ok (), (count + 1, next)) := by
          simp only [applyBranchBlock, show chain.applyBlock host entry.2 entry.1 = _ from hb]
        rw [Loop.run_cons_ok counted]
        obtain ⟨final, imported, counts⟩
            | ⟨applied, failing, later, middle, e, stop, rfl, imported, fails, counts⟩ :=
          ih (count + 1) next
        · refine Or.inl ⟨final, by rw [Loop.run_cons_ok hb, imported], ?_⟩
          rw [counts, List.length_cons, Nat.add_assoc, Nat.add_comm 1]
        · refine Or.inr ⟨entry :: applied, failing, later, middle, e, stop, rfl,
            by rw [Loop.run_cons_ok hb, imported], fails, ?_⟩
          rw [counts, List.length_cons, Nat.add_assoc, Nat.add_comm 1]
      · have stopped
            : applyBranchBlock host entry (count, chain) = (.error e, (count, stop)) := by
          simp only [applyBranchBlock, show chain.applyBlock host entry.2 entry.1 = _ from hb]
        refine Or.inr ⟨[], entry, rest, chain, e, stop, rfl, rfl, hb, ?_⟩
        rw [Loop.run_cons_error stopped]
        rfl

/-- The chain when the reverted transactions are in the pool and the head is the fork block. -/
def unwound (host : Host F) (forkPoint : UInt64) (fork : Block) (chain : Chain F) : Chain F :=
  (Loop.run (revertBlock host) (revertedNumbers forkPoint chain.blockNumber) chain).2.setHead
    fork.header

omit [F32 F] in
/-- Unwinding changes the pool, the latest number and the head. -/
theorem unwound_frame (forkPoint : UInt64) (fork : Block) (chain : Chain F)
    : ∃ txpool,
        chain.unwound host forkPoint fork
          = { chain with
              txpool
              db := chain.db.putLatestBlockNumber fork.header.number
              head := some fork.header } := by
  obtain ⟨txpool, frame⟩ :=
    @run_revertBlock_frame F host (revertedNumbers forkPoint chain.blockNumber) chain
  exact ⟨txpool, by rw [unwound, frame]; rfl⟩

omit [F32 F] in
theorem Indexed.blockNumber {headers : Set BlockHeader} {chain : Chain F} {head : BlockHeader}
    (indexed : Indexed host headers chain head)
    : chain.blockNumber = head.number := by
  simp only [Chain.blockNumber, indexed.isHead, Option.map_some, Option.getD_some]

omit [F32 F] in
theorem mem_revertedNumbers_le {forkPoint currentHead number : UInt64}
    (member : number ∈ revertedNumbers forkPoint currentHead)
    : number ≤ currentHead := by
  simp only [revertedNumbers, List.mem_map, List.mem_reverse, List.mem_range'_1] at member
  obtain ⟨n, bounds, rfl⟩ := member
  have below : n ≤ currentHead.toNat := by omega
  rw [UInt64.le_iff_toNat_le,
    UInt64.toNat_ofNat_of_lt' (Nat.lt_of_le_of_lt below currentHead.toNat_lt)]
  exact below

/-- On an indexed chain a reorganization at a canonical block unwinds to it and imports the
branch, as far as it goes.
-/
theorem Indexed.executeReorg {headers : Set BlockHeader} {chain : Chain F}
    {head : BlockHeader} (indexed : Indexed host headers chain head) {forkPoint : UInt64}
    (onChain : forkPoint ≤ head.number) (newBlocks : List (Block × BlockOrder F))
    : ∃ fork,
        chain.getBlockByNumber host forkPoint = .ok (some fork)
        ∧ HashChain.Ancestor (headerLinks host.crypto) headers fork.header head
        ∧ fork.header.number = forkPoint
        ∧ (∃ outcome,
            (chain.executeReorg host forkPoint newBlocks).1 = .ok outcome
            ∧ outcome.blocksApplied
              = (Loop.run (applyBranchBlock host) newBlocks
                  (0, chain.unwound host forkPoint fork)).2.1)
        ∧ (chain.executeReorg host forkPoint newBlocks).2
          = (Loop.run (applyBranchBlock host) newBlocks
              (0, chain.unwound host forkPoint fork)).2.2 := by
  obtain ⟨fork, read, above, height⟩ := indexed.getBlockByNumber onChain
  have notAhead : ¬ forkPoint > chain.blockNumber := by
    rw [indexed.blockNumber]
    exact UInt64.not_lt.mpr onChain
  obtain ⟨middle, reverted, sameDb⟩ :=
    @Loop.run_ok _ _ _ (revertBlock host) (revertedNumbers forkPoint chain.blockNumber) chain
      (fun state => state.db = chain.db) (by
        intro number member state same
        have below := mem_revertedNumbers_le member
        rw [indexed.blockNumber] at below
        obtain ⟨block, found, _⟩ := indexed.getBlockByNumber below
        have foundHere : state.getBlockByNumber host number = .ok (some block) := by
          simpa only [Chain.getBlockByNumber, getBlockByHash, same] using found
        simp only [revertBlock, foundHere]
        exact ⟨_, rfl, same⟩) rfl
  have readMiddle : middle.getBlockByNumber host forkPoint = .ok (some fork) := by
    simpa only [Chain.getBlockByNumber, getBlockByHash, sameDb] using read
  have unwinds : chain.unwound host forkPoint fork = middle.setHead fork.header := by
    rw [unwound, reverted]
  refine ⟨fork, read, above, height, ?_⟩
  rw [unwinds]
  simp only [Chain.executeReorg, notAhead, if_false, reverted, applyBranch, readMiddle, rewind,
    and_true]
  exact ⟨_, rfl, rfl⟩

/-- Two chains that may differ in head, latest number and pool. -/
structure SameExecution (before after : Chain F) : Prop where
  state : after.state = before.state
  gameWorld : after.gameWorld = before.gameWorld
  evm : after.evm = before.evm
  stored : after.db.contents .gameState = before.db.contents .gameState

omit [F32 F] in
theorem sameExecution_rewind (fork : Option Block) {before chain : Chain F}
    (same : SameExecution before chain)
    : SameExecution before (chain.rewind fork) := by
  cases fork with
  | none => exact same
  | some block =>
      refine ⟨same.state, same.gameWorld, same.evm, ?_⟩
      exact (Database.contents_putLatestBlockNumber (by decide) _ _).trans same.stored

/-- A reorganization that applies all its blocks imports them where the old branch left accounts
and game world.
-/
theorem executeReorg_complete {forkPoint : UInt64} {newBlocks : List (Block × BlockOrder F)}
    {chain final : Chain F} {outcome : ReorgOutcome}
    (reorg : chain.executeReorg host forkPoint newBlocks = (.ok outcome, final))
    (complete : outcome.blocksApplied = newBlocks.length)
    : ∃ start,
        SameExecution chain start
        ∧ Loop.run (importBlock host) newBlocks start = (.ok (), final) := by
  obtain ⟨txpool, frame⟩ :=
    @run_revertBlock_frame F host (revertedNumbers forkPoint chain.blockNumber) chain
  unfold executeReorg at reorg
  simp only at reorg
  split at reorg
  next => simp at reorg
  next =>
    rcases reverted
        : Loop.run (revertBlock host) (revertedNumbers forkPoint chain.blockNumber) chain
      with ⟨_ | _, middle⟩
    · simp [reverted] at reorg
    · rw [reverted] at frame
      have same : SameExecution chain middle := by
        rw [show middle = { chain with txpool } from frame]
        exact ⟨rfl, rfl, rfl, rfl⟩
      simp only [reverted, applyBranch] at reorg
      cases read : middle.getBlockByNumber host forkPoint with
      | error e => simp [read] at reorg
      | ok fork =>
          simp only [read, Prod.mk.injEq, Except.ok.injEq] at reorg
          obtain ⟨rfl, rfl⟩ := reorg
          refine ⟨middle.rewind fork, sameExecution_rewind fork same, ?_⟩
          obtain ⟨final, imported, counts⟩
              | ⟨applied, failing, rest, _, _, stop, split, _, _, counts⟩ :=
            @run_applyBranchBlock F _ host newBlocks 0 (middle.rewind fork)
          · exact imported.trans (congrArg (Prod.mk _) (congrArg Prod.snd counts).symm)
          · have fewer := complete.symm.trans (congrArg Prod.fst counts)
            rw [split, List.length_append, List.length_cons] at fewer
            omega

end VeloChain.Chain
