import VeloChain.Node.Acceptance
import VeloChain.Node.BranchRun
import VeloChain.Node.Run

/-! A reorganization whose branch breaks off.
The head is lowered before any new block is checked and is not restored. So the old head stays
only where the branch begins with the very blocks that were unwound, which are accepted once
more, and breaks off right after them.
-/

namespace VeloChain.Chain

variable {F : Type} [F32 F]

/-- The head, the latest number and the index up to the head are what they were, and a block
that was valid on top of the head still is.
-/
structure HeadKept (host : Host F) (before after : Chain F) : Prop where
  head : after.head = before.head
  latest : after.db.getLatestBlockNumber = before.db.getLatestBlockNumber
  index
    : ∀ number ≤ before.blockNumber,
        after.db.getBlockHashByNumber number = before.db.getBlockHashByNumber number
  child
    : ∀ child parent,
        before.head = some parent
        → before.consensus.verifyBlock host.crypto child parent = .ok ()
        → ∃ parent',
            after.head = some parent'
            ∧ after.consensus.verifyBlock host.crypto child parent' = .ok ()

variable {host : Host F}

omit [F32 F] in
/-- Two indexes of one head lead to the same hashes up to it. -/
theorem Indexed.sameIndex {headers : Set BlockHeader} {left right : Chain F}
    {head : BlockHeader} (isLeft : Indexed host headers left head)
    (isRight : Indexed host headers right head)
    (collisionFree : Set.InjOn (BlockHeader.hash host.crypto) headers) {number : UInt64}
    (reached : number ≤ head.number)
    : left.db.getBlockHashByNumber number = right.db.getBlockHashByNumber number := by
  have below := UInt64.le_iff_toNat_le.mp reached
  obtain ⟨ancestor, above, height, entry, _⟩ := isLeft.canonical.indexed number.toNat below
  obtain ⟨ancestor', above', height', entry', _⟩ := isRight.canonical.indexed number.toNat below
  obtain rfl := above.unique collisionFree above' (height.trans height'.symm)
  rw [indexEntry, UInt64.ofNat_toNat] at entry entry'
  rw [entry, entry']

omit [F32 F] in
/-- Between indexed chains everything is kept as soon as the head is. -/
theorem Indexed.headKept {headers : Set BlockHeader} {before after : Chain F}
    {head next : BlockHeader} (isBefore : Indexed host headers before head)
    (isAfter : Indexed host headers after next)
    (collisionFree : Set.InjOn (BlockHeader.hash host.crypto) headers)
    (consensus : after.consensus = before.consensus) (sameHead : next = head)
    : HeadKept host before after := by
  subst sameHead
  refine ⟨isAfter.isHead.trans isBefore.isHead.symm, isAfter.latest.trans isBefore.latest.symm,
    ?_, ?_⟩
  · intro number reached
    rw [isBefore.blockNumber] at reached
    exact isAfter.sameIndex isBefore collisionFree reached
  · intro child parent isHead valid
    obtain rfl := Option.some.inj (isHead.symm.trans isBefore.isHead)
    exact ⟨parent, isAfter.isHead, consensus ▸ valid⟩

-----------------------------------------------------------------------------------------
-- Blocks that are accepted in turn
-----------------------------------------------------------------------------------------

/-- Each block follows the one before it, the senders of its transactions can be recovered, and
the world, ticked with the actions of the blocks before, lets its actions through.
-/
def AcceptedInTurn (host : Host F) (consensus : PoaConsensus)
    : BlockHeader → GameWorld F → List (Block × BlockOrder F) → Prop
  | _, _, [] => True
  | parent, world, (block, order) :: rest =>
      let entries := gameEntries host.crypto block
      consensus.verifyBlock host.crypto block parent = .ok ()
      ∧ (∀ tx ∈ block.body.transactions, ∃ sender, tx.sender host.crypto = .ok sender)
      ∧ world.ecs.roster.Admits entries
      ∧ AcceptedInTurn host consensus block.header
          (world.tick host.crypto host.ecs order.tick entries).2 rest

/-- The world after an accepted block is the ticked one. -/
theorem Accepted.world_eq_tick {order : BlockOrder F} {block : Block} {chain : Chain F}
    (accepted : Accepted host order block chain)
    : accepted.world
      = (chain.gameWorld.tick host.crypto host.ecs order.tick
          (gameEntries host.crypto block)).2 := by
  rw [gameEntries, ← (Partition.ofBlock_parts accepted.partitioned).2, accepted.ticks]

/-- Where the accounts can be read, blocks are imported exactly if they are accepted in turn, by
induction on the blocks.
-/
theorem run_importBlock_ok_iff (sound : host.account.RoundTrips)
    {blocks : List (Block × BlockOrder F)} {chain : Chain F} {head : BlockHeader}
    (isHead : chain.head = some head) (readable : chain.AccountsReadable host)
    : (∃ final, Loop.run (importBlock host) blocks chain = (.ok (), final))
      ↔ AcceptedInTurn host chain.consensus head chain.gameWorld blocks := by
  induction blocks generalizing chain head with
  | nil => exact ⟨fun _ => trivial, fun _ => ⟨chain, rfl⟩⟩
  | cons entry rest ih =>
      have onward (accepted : Accepted host entry.2 entry.1 chain)
          : (∃ final, Loop.run (importBlock host) rest accepted.result = (.ok (), final))
            ↔ AcceptedInTurn host chain.consensus entry.1.header
                (chain.gameWorld.tick host.crypto host.ecs entry.2.tick
                  (gameEntries host.crypto entry.1)).2
                rest := by
        have next := @AccountsReadable.applyBlock F host _ sound entry.2 entry.1 chain readable
        rw [applyBlock_ok_iff.mpr ⟨accepted, rfl⟩] at next
        rw [← accepted.world_eq_tick]
        exact @ih accepted.result _ rfl next
      constructor
      · rintro ⟨final, applied⟩
        obtain ⟨next, imported, applied⟩ := Loop.run_cons_ok_iff.mp applied
        obtain ⟨⟨parent, isParent, verified⟩, senders, admits⟩ :=
          applyBlock_accepts_iff.mp ⟨next, imported⟩
        obtain rfl := Option.some.inj (isParent.symm.trans isHead)
        obtain ⟨accepted, rfl⟩ := applyBlock_ok_iff.mp imported
        exact ⟨verified, fun tx member => (senders tx member).imp (fun _ both => both.1), admits,
          (onward accepted).mp ⟨final, applied⟩⟩
      · rintro ⟨verified, recovers, admits, later⟩
        obtain ⟨next, imported⟩ := applyBlock_accepts_iff.mpr
          ⟨⟨head, isHead, verified⟩,
            fun tx member => (recovers tx member).imp
              (fun sender recovered => ⟨recovered, readable.accounts sender⟩),
            admits⟩
        obtain ⟨accepted, rfl⟩ := applyBlock_ok_iff.mp imported
        obtain ⟨final, applied⟩ := (onward accepted).mpr later
        exact ⟨final, Loop.run_cons_ok_iff.mpr ⟨_, imported, applied⟩⟩

/-- After imported blocks, the next one is refused exactly if it is not accepted in turn. -/
theorem importBlock_refuses_iff (sound : host.account.RoundTrips)
    {blocks : List (Block × BlockOrder F)} {next : Block × BlockOrder F} {chain middle : Chain F}
    {head : BlockHeader} (isHead : chain.head = some head) (readable : chain.AccountsReadable host)
    (imported : Loop.run (importBlock host) blocks chain = (.ok (), middle))
    : (∃ e stop, importBlock host next middle = (.error e, stop))
      ↔ ¬ AcceptedInTurn host chain.consensus head chain.gameWorld (blocks ++ [next]) := by
  rw [← run_importBlock_ok_iff sound isHead readable, not_exists]
  constructor
  · rintro ⟨e, stop, fails⟩ final whole
    obtain ⟨middle', imported', last⟩ := Loop.run_append_ok_iff.mp whole
    obtain rfl := (Prod.mk.inj (imported.symm.trans imported')).2
    obtain ⟨after, goesOn, _⟩ := Loop.run_cons_ok_iff.mp last
    rw [fails] at goesOn
    exact nomatch (Prod.mk.inj goesOn).1
  · intro stops
    rcases Loop.body_cases (importBlock host) next middle with ⟨after, goesOn⟩ | fails
    · have last : Loop.run (importBlock host) [next] middle = (.ok (), after) :=
        Loop.run_cons_ok_iff.mpr ⟨after, goesOn, rfl⟩
      exact absurd (Loop.run_append_ok_iff.mpr ⟨middle, imported, last⟩) (stops after)
    · exact fails

omit [F32 F] in
theorem AccountsReadable.congr {before after : Chain F} (readable : before.AccountsReadable host)
    (same : after.db.contents .gameState = before.db.contents .gameState)
    : after.AccountsReadable host := by
  rw [AccountsReadable, WorldState.committedView_congr host.account same]
  exact readable

omit [F32 F] in
theorem AccountsReadable.setHead {chain : Chain F} (readable : chain.AccountsReadable host)
    (header : BlockHeader)
    : (chain.setHead header).AccountsReadable host :=
  readable.congr (Database.contents_putLatestBlockNumber (by decide) _ _)

/-- Every operation keeps the stored accounts readable. -/
theorem AccountsReadable.run (sound : host.account.RoundTrips) {chain : Chain F}
    (readable : chain.AccountsReadable host) (op : HeadOp F)
    : (op.run host chain).AccountsReadable host := by
  cases op with
  | applyBlock block order => exact readable.applyBlock sound
  | executeReorg forkPoint newBlocks =>
      refine executeReorg_invariant (AccountsReadable host) readable ?_
        (fun _ block held _ _ => held.setHead block.header)
        (fun _ entry _ held => held.applyBlock sound)
      intro state number _ held
      obtain ⟨txpool, frame⟩ := @revertBlock_frame F host number state
      rw [frame]
      exact held
  | restoreHead =>
      obtain ⟨head, frame⟩ := @restoreHead_frame F host chain
      rw [HeadOp.run, frame]
      exact readable

theorem AccountsReadable.foldl_run (sound : host.account.RoundTrips) {chain : Chain F}
    (readable : chain.AccountsReadable host) (ops : List (HeadOp F))
    : (ops.foldl (HeadOp.run host) chain).AccountsReadable host :=
  List.foldlRecOn (motive := AccountsReadable host) ops (HeadOp.run host) readable
    (fun _ held op _ => held.run sound op)

-----------------------------------------------------------------------------------------
-- Where the branch breaks off
-----------------------------------------------------------------------------------------

/-- A failing block keeps the head. -/
theorem importBlock_error_head {entry : Block × BlockOrder F} {chain stop : Chain F}
    {e : NodeError} (fails : importBlock host entry chain = (.error e, stop))
    : stop.head = chain.head := by
  obtain ⟨_, _, _, rfl⟩ := applyBlock_error fails
  rfl

/-- The branch is imported up to the first block that fails. -/
theorem run_applyBranchBlock_of_fails {applied : List (Block × BlockOrder F)}
    {failing : Block × BlockOrder F} {chain middle stop : Chain F} {e : NodeError}
    (imported : Loop.run (importBlock host) applied chain = (.ok (), middle))
    (fails : importBlock host failing middle = (.error e, stop))
    (rest : List (Block × BlockOrder F)) (count : Nat)
    : (Loop.run (applyBranchBlock host) (applied ++ failing :: rest) (count, chain)).2
      = (count + applied.length, stop) := by
  induction applied generalizing count chain with
  | nil =>
      obtain rfl := (Prod.mk.inj imported).2
      have stopped
          : applyBranchBlock host failing (count, chain) = (.error e, (count, stop)) := by
        simp only [applyBranchBlock, show chain.applyBlock host failing.2 failing.1 = _ from fails]
      rw [List.nil_append, Loop.run_cons_error stopped]
      rfl
  | cons entry others ih =>
      obtain ⟨next, first, imported⟩ := Loop.run_cons_ok_iff.mp imported
      have counted
          : applyBranchBlock host entry (count, chain) = (.ok (), (count + 1, next)) := by
        simp only [applyBranchBlock, show chain.applyBlock host entry.2 entry.1 = _ from first]
      rw [List.cons_append, Loop.run_cons_ok counted, ih imported, List.length_cons,
        Nat.add_assoc, Nat.add_comm 1]

/-- The blocks have the headers of the chain above the fork point, up to the head. -/
structure Repeats (host : Host F) (chain : Chain F) (forkPoint : UInt64)
    (blocks : List (Block × BlockOrder F)) : Prop where
  length : blocks.length = (chain.blockNumber - forkPoint).toNat
  same
    : ∀ i entry, blocks[i]? = some entry →
        ∃ block,
          chain.getBlockByNumber host (forkPoint + UInt64.ofNat (i + 1)) = .ok (some block)
          ∧ block.header = entry.1.header

omit [F32 F] in
/-- The block of the highest number has the header of the head. -/
theorem Indexed.getBlockByNumber_head {headers : Set BlockHeader} {chain : Chain F}
    {head : BlockHeader} (indexed : Indexed host headers chain head)
    (collisionFree : Set.InjOn (BlockHeader.hash host.crypto) headers) {block : Block}
    (read : chain.getBlockByNumber host head.number = .ok (some block))
    : block.header = head := by
  obtain ⟨stored, found, above, height⟩ := indexed.getBlockByNumber (UInt64.le_refl head.number)
  obtain rfl := Option.some.inj (Except.ok.inj (read.symm.trans found))
  exact above.unique collisionFree (.self indexed.canonical.member) (congrArg UInt64.toNat height)

omit [F32 F] in
/-- A branch that repeats the chain leads to its head. -/
theorem Repeats.leads {headers : Set BlockHeader} {chain : Chain F} {head : BlockHeader}
    {forkPoint : UInt64} {fork : Block} {blocks : List (Block × BlockOrder F)}
    (repeats : chain.Repeats host forkPoint blocks)
    (indexed : Indexed host headers chain head)
    (collisionFree : Set.InjOn (BlockHeader.hash host.crypto) headers)
    (read : chain.getBlockByNumber host forkPoint = .ok (some fork))
    : (Chain.headers blocks).getLastD fork.header = head := by
  have length := repeats.length
  rw [indexed.blockNumber] at length
  rcases List.eq_nil_or_concat blocks with rfl | ⟨before, last, rfl⟩
  · have atHead : head.number = forkPoint := by
      have zero : head.number - forkPoint = 0 := UInt64.toNat_inj.mp length.symm
      rw [← UInt64.sub_add_cancel head.number forkPoint, zero, UInt64.zero_add]
    exact indexed.getBlockByNumber_head collisionFree (atHead ▸ read)
  · rw [List.concat_eq_append] at repeats length ⊢
    obtain ⟨block, found, same⟩ := repeats.same before.length last (by simp)
    have atHead : forkPoint + UInt64.ofNat (before.length + 1) = head.number := by
      have counted : before.length + 1 = (head.number - forkPoint).toNat := by
        rw [← length, List.length_append, List.length_singleton]
      rw [counted, UInt64.ofNat_toNat]
      exact (UInt64.add_comm _ _).trans (UInt64.sub_add_cancel _ _)
    rw [atHead] at found
    rw [Chain.headers, List.map_append, List.map_singleton, List.getLastD_concat, ← same]
    exact indexed.getBlockByNumber_head collisionFree found

omit [F32 F] in
/-- Headers that follow one another are counted without wrapping around up to a number that is
not below the first one.
-/
theorem linked_of_follows {root : BlockHeader} {path : List BlockHeader}
    (follows
      : List.IsChain (fun parent header => PoaConsensus.FollowsParent host.crypto header parent)
          (root :: path))
    (fits : root.number.toNat + path.length < 2 ^ 64)
    : List.IsChain (HashChain.Linked (headerLinks host.crypto)) (root :: path) := by
  induction path generalizing root with
  | nil => exact .singleton root
  | cons first rest ih =>
      obtain ⟨rules, later⟩ := List.isChain_cons_cons.mp follows
      rw [List.length_cons] at fits
      have number : first.number.toNat = root.number.toNat + 1 := by
        rw [rules.number, UInt64.toNat_add, UInt64.toNat_one]
        exact Nat.mod_eq_of_lt (by omega)
      exact .cons_cons ⟨rules.parentHash, number⟩ (ih later (by omega))

omit [F32 F] in
theorem number_getLastD {root : BlockHeader} {path : List BlockHeader}
    (follows
      : List.IsChain (fun parent header => PoaConsensus.FollowsParent host.crypto header parent)
          (root :: path))
    : (path.getLastD root).number = root.number + UInt64.ofNat path.length := by
  induction path generalizing root with
  | nil => exact (UInt64.add_zero _).symm
  | cons first rest ih =>
      obtain ⟨rules, later⟩ := List.isChain_cons_cons.mp follows
      rw [List.getLastD_cons, ih later, rules.number, List.length_cons, UInt64.add_assoc,
        Nat.add_comm, UInt64.ofNat_add]
      rfl

omit [F32 F] in
/-- A branch that leads to the head of the chain repeats it: a hash has one path to the fork
block.
-/
theorem Indexed.repeats {headers : Set BlockHeader} {chain : Chain F} {head : BlockHeader}
    (indexed : Indexed host headers chain head)
    (collisionFree : Set.InjOn (BlockHeader.hash host.crypto) headers) {fork : BlockHeader}
    (onChain : fork.number ≤ head.number) {blocks : List (Block × BlockOrder F)}
    (inRecords : ∀ header ∈ fork :: Chain.headers blocks, header ∈ headers)
    (follows
      : List.IsChain (fun parent header => PoaConsensus.FollowsParent host.crypto header parent)
          (fork :: Chain.headers blocks))
    (short : blocks.length < 2 ^ 64) (leads : (Chain.headers blocks).getLastD fork = head)
    : chain.Repeats host fork.number blocks := by
  have counted := number_getLastD follows
  rw [leads, Chain.headers, List.length_map] at counted
  have length : blocks.length = (head.number - fork.number).toNat := by
    rw [counted, UInt64.add_comm, UInt64.add_sub_cancel, UInt64.toNat_ofNat_of_lt' short]
  have fits : fork.number.toNat + blocks.length ≤ head.number.toNat := by
    have below := UInt64.le_iff_toNat_le.mp onChain
    rw [length, UInt64.toNat_sub_of_le _ _ onChain]
    omega
  have bound := head.number.toNat_lt
  have linked := linked_of_follows follows
    (by rw [Chain.headers, List.length_map]; omega)
  refine ⟨by rw [indexed.blockNumber, length], fun i entry found => ?_⟩
  have foundHeader : (Chain.headers blocks)[i]? = some entry.1.header := by
    rw [Chain.headers, List.getElem?_map, found]
    rfl
  obtain ⟨above, height⟩ := HashChain.ancestor_getElem? inRecords linked foundHeader
  rw [leads] at above
  have early : i < blocks.length := (List.getElem?_eq_some_iff.mp found).1
  have climbed : (fork.number + UInt64.ofNat (i + 1)).toNat = fork.number.toNat + (i + 1) := by
    rw [UInt64.toNat_add, UInt64.toNat_ofNat_of_lt' (show i + 1 < 2 ^ 64 by omega)]
    exact Nat.mod_eq_of_lt (by omega)
  have reached : fork.number + UInt64.ofNat (i + 1) ≤ head.number :=
    UInt64.le_iff_toNat_le.mpr (by omega)
  obtain ⟨block, read, isAbove, isHeight⟩ := indexed.getBlockByNumber reached
  refine ⟨block, read, isAbove.unique collisionFree above ?_⟩
  rw [height]
  exact (congrArg UInt64.toNat isHeight).trans climbed

/-- On an indexed chain, a reorganization that does not apply all its blocks leaves the head
where it was exactly if the branch repeats the chain up to the head, in blocks that are accepted
in turn, and goes on with one that is not.
-/
theorem Indexed.executeReorg_head_iff (sound : host.account.RoundTrips)
    {headers : Set BlockHeader} {chain : Chain F} {head : BlockHeader}
    (indexed : Indexed host headers chain head)
    (collisionFree : Set.InjOn (BlockHeader.hash host.crypto) headers)
    (readable : chain.AccountsReadable host) {forkPoint : UInt64}
    (onChain : forkPoint ≤ head.number) {newBlocks : List (Block × BlockOrder F)}
    (inRecords : ∀ entry ∈ newBlocks, entry.1.header ∈ headers)
    (incomplete
      : ∀ outcome, (chain.executeReorg host forkPoint newBlocks).1 = .ok outcome
          → outcome.blocksApplied < newBlocks.length)
    : (chain.executeReorg host forkPoint newBlocks).2.head = chain.head
      ↔ ∃ fork repeated next rest,
          chain.getBlockByNumber host forkPoint = .ok (some fork)
          ∧ newBlocks = repeated ++ next :: rest
          ∧ chain.Repeats host forkPoint repeated
          ∧ AcceptedInTurn host chain.consensus fork.header chain.gameWorld repeated
          ∧ ¬ AcceptedInTurn host chain.consensus fork.header chain.gameWorld
                (repeated ++ [next]) := by
  obtain ⟨fork, read, above, height, ⟨outcome, result, count⟩, final⟩ :=
    indexed.executeReorg onChain newBlocks
  have fewer := incomplete outcome result
  obtain ⟨txpool, unwinds⟩ := @unwound_frame F host forkPoint fork chain
  have startHead : (chain.unwound host forkPoint fork).head = some fork.header := by
    rw [unwinds]
  have startReadable : (chain.unwound host forkPoint fork).AccountsReadable host := by
    rw [unwinds]
    exact readable.congr (Database.contents_putLatestBlockNumber (by decide) _ _)
  have accepts (blocks : List (Block × BlockOrder F))
      : (∃ final,
          Loop.run (importBlock host) blocks (chain.unwound host forkPoint fork)
            = (.ok (), final))
        ↔ AcceptedInTurn host chain.consensus fork.header chain.gameWorld blocks := by
    rw [run_importBlock_ok_iff sound startHead startReadable, unwinds]
  have refuses {applied : List (Block × BlockOrder F)} (failing : Block × BlockOrder F)
      {middle : Chain F}
      (imported
        : Loop.run (importBlock host) applied (chain.unwound host forkPoint fork)
          = (.ok (), middle))
      : (∃ e stop, importBlock host failing middle = (.error e, stop))
        ↔ ¬ AcceptedInTurn host chain.consensus fork.header chain.gameWorld
              (applied ++ [failing]) := by
    rw [importBlock_refuses_iff sound startHead startReadable imported, unwinds]
  constructor
  · intro kept
    obtain ⟨_, _, counts⟩
        | ⟨applied, failing, rest, middle, e, stop, split, imported, fails, counts⟩ :=
      run_applyBranchBlock newBlocks 0 (chain.unwound host forkPoint fork)
    · rw [count, counts, Nat.zero_add] at fewer
      exact absurd fewer (Nat.lt_irrefl _)
    · obtain ⟨_, follows, newHead⟩ := run_importBlock_grows startHead imported
      have leads : (Chain.headers applied).getLastD fork.header = head := by
        rw [final, counts, importBlock_error_head fails, newHead, indexed.isHead] at kept
        exact Option.some.inj kept
      have within : ∀ header ∈ fork.header :: Chain.headers applied, header ∈ headers := by
        refine List.forall_mem_cons.mpr ⟨above.member_older, fun header member => ?_⟩
        obtain ⟨entry, isEntry, rfl⟩ := List.mem_map.mp member
        exact inRecords entry (split ▸ List.mem_append_left _ isEntry)
      have repeats := indexed.repeats collisionFree (height ▸ onChain) within follows
        (length_lt_of_run startHead imported) leads
      rw [height] at repeats
      exact ⟨fork, applied, failing, rest, read, split, repeats, (accepts applied).mp ⟨_, imported⟩,
        (refuses failing imported).mp ⟨e, stop, fails⟩⟩
  · rintro ⟨other, repeated, next, rest, isOther, split, repeats, accepted, refused⟩
    obtain rfl := Option.some.inj (Except.ok.inj (read.symm.trans isOther))
    obtain ⟨middle, imported⟩ := (accepts repeated).mpr accepted
    obtain ⟨e, stop, fails⟩ := (refuses next imported).mpr refused
    have counts := run_applyBranchBlock_of_fails imported fails rest 0
    rw [final, split, counts, importBlock_error_head fails,
      (run_importBlock_grows startHead imported).2.2, repeats.leads indexed collisionFree read,
      indexed.isHead]

/-- On every chain that genesis, imports, reorganizations and restarts lead to, a reorganization
that does not apply all its blocks keeps the head exactly when the branch repeats the chain above
the fork point up to the head, in blocks that are accepted in turn once more, before the first
block that is not.
-/
theorem failedReorg_run (host : Host F) (sound : host.account.RoundTrips)
    {genesis : BlockHeader} (number : genesis.number = 0) {ops : List (HeadOp F)}
    {forkPoint : UInt64} {newBlocks : List (Block × BlockOrder F)}
    (collisionFree
      : Set.InjOn (BlockHeader.hash host.crypto)
          (runHeaders genesis (ops ++ [.executeReorg forkPoint newBlocks])))
    (readBack
      : ReadBack host.blocks (runBlocks genesis (ops ++ [.executeReorg forkPoint newBlocks])))
    {chain reached : Chain F} (readable : chain.AccountsReadable host)
    (ran : reached = ops.foldl (HeadOp.run host) (chain.initGenesis host genesis))
    (onChain : forkPoint ≤ reached.blockNumber)
    (incomplete
      : ∀ outcome, (reached.executeReorg host forkPoint newBlocks).1 = .ok outcome
          → outcome.blocksApplied < newBlocks.length)
    : HeadKept host reached (reached.executeReorg host forkPoint newBlocks).2
      ↔ ∃ fork repeated next rest,
          reached.getBlockByNumber host forkPoint = .ok (some fork)
          ∧ newBlocks = repeated ++ next :: rest
          ∧ reached.Repeats host forkPoint repeated
          ∧ AcceptedInTurn host reached.consensus fork.header reached.gameWorld repeated
          ∧ ¬ AcceptedInTurn host reached.consensus fork.header reached.gameWorld
                (repeated ++ [next]) := by
  have split
      : runBlocks genesis (ops ++ [.executeReorg forkPoint newBlocks])
        = runBlocks genesis ops ++ newBlocks.map Prod.fst := by
    simp [runBlocks, HeadOp.blocks]
  have earlier (block) (inRun : block ∈ runBlocks genesis ops)
      : block ∈ runBlocks genesis (ops ++ [.executeReorg forkPoint newBlocks]) :=
    split ▸ List.mem_append_left _ inRun
  have later (block) (inReorg : block ∈ newBlocks.map Prod.fst)
      : block ∈ runBlocks genesis (ops ++ [.executeReorg forkPoint newBlocks]) :=
    split ▸ List.mem_append_right _ inReorg
  obtain ⟨head, indexed⟩ := exists_indexed_of_run number collisionFree
    (fun block inRun => ⟨block, earlier block inRun, rfl⟩)
    (fun block inRun => readBack block (earlier block inRun)) ran
  obtain ⟨next, indexedAfter⟩ :=
    @Indexed.run F host _ _ reached head indexed collisionFree
      (.executeReorg forkPoint newBlocks)
      (fun block inReorg => ⟨block, later block inReorg, rfl⟩)
      (fun block inReorg => readBack block (later block inReorg))
  have reachedReadable : reached.AccountsReadable host :=
    ran ▸ (readable.initGenesis genesis).foldl_run sound ops
  rw [indexed.blockNumber] at onChain
  rw [← indexed.executeReorg_head_iff sound collisionFree reachedReadable onChain
    (fun entry member => ⟨entry.1, later _ (List.mem_map_of_mem member), rfl⟩) incomplete]
  constructor
  · exact fun kept => kept.head
  -- the index of the new chain describes the new head, so equal heads have equal indexes
  · intro sameHead
    refine indexed.headKept indexedAfter collisionFree
      (executeReorg_config forkPoint newBlocks reached).1 ?_
    exact Option.some.inj (indexedAfter.isHead.symm.trans (sameHead.trans indexed.isHead))

section LostHead

/-- Genesis and one block on top of it. -/
def grownOnce : List (HeadOp Milli) := [.applyBlock firstBlock (.ascending Milli)]

/-- A branch of one block that follows nothing. -/
def brokenBranch : List (Block × BlockOrder Milli) :=
  [(Block.new (.genesis 0) [], .ascending Milli)]

/-- A host that can store the blocks of the run. -/
def grownHost : Host Milli :=
  .reference (runBlocks (.genesis 0) (grownOnce ++ [.executeReorg 0 brokenBranch]))

/-- The chain before the reorganization. -/
def grownChain : Chain Milli :=
  grownOnce.foldl (HeadOp.run grownHost) (genesisChain.initGenesis grownHost (.genesis 0))

theorem collisionFree_grownOnce
    : Set.InjOn (BlockHeader.hash grownHost.crypto)
        (runHeaders (.genesis 0) (grownOnce ++ [.executeReorg 0 brokenBranch])) :=
  injOn_runHeaders (by decide +kernel)

theorem readBack_grownOnce
    : ReadBack grownHost.blocks
        (runBlocks (.genesis 0) (grownOnce ++ [.executeReorg 0 brokenBranch])) := by
  unfold ReadBack
  decide +kernel

theorem incomplete_brokenBranch (outcome : ReorgOutcome)
    (result : (grownChain.executeReorg grownHost 0 brokenBranch).1 = .ok outcome)
    : outcome.blocksApplied < brokenBranch.length := by
  have counted
      : (grownChain.executeReorg grownHost 0 brokenBranch).1.toOption.map
          ReorgOutcome.blocksApplied = some 0 := by
    decide +kernel
  rw [result] at counted
  rw [show outcome.blocksApplied = 0 from Option.some.inj counted]
  decide

theorem failedReorg_run_brokenBranch
    : HeadKept grownHost grownChain (grownChain.executeReorg grownHost 0 brokenBranch).2
      ↔ ∃ fork repeated next rest,
          grownChain.getBlockByNumber grownHost 0 = .ok (some fork)
          ∧ brokenBranch = repeated ++ next :: rest
          ∧ grownChain.Repeats grownHost 0 repeated
          ∧ AcceptedInTurn grownHost grownChain.consensus fork.header grownChain.gameWorld repeated
          ∧ ¬ AcceptedInTurn grownHost grownChain.consensus fork.header grownChain.gameWorld
                (repeated ++ [next]) :=
  @failedReorg_run Milli _ grownHost Account.wordCodec_roundTrips (.genesis 0) rfl grownOnce 0
    brokenBranch collisionFree_grownOnce readBack_grownOnce genesisChain grownChain
    (Account.wordCodec_readable _) rfl (by decide +kernel) incomplete_brokenBranch

-- A branch that repeats the block of the chain before the one that fails keeps the head.
example
    : (grownChain.executeReorg grownHost 0 ((firstBlock, .ascending Milli) :: brokenBranch)).2.head
      = grownChain.head := by
  decide +kernel

/-- A branch whose first block fails moves the head back to the fork point. -/
theorem failedReorg_fails_on_brokenBranch
    : ¬ ∀ (genesis : BlockHeader) (ops : List (HeadOp Milli)) (forkPoint : UInt64)
          (newBlocks : List (Block × BlockOrder Milli)) (chain reached : Chain Milli),
        genesis.number = 0
        → Set.InjOn (BlockHeader.hash grownHost.crypto)
            (runHeaders genesis (ops ++ [.executeReorg forkPoint newBlocks]))
        → ReadBack grownHost.blocks
            (runBlocks genesis (ops ++ [.executeReorg forkPoint newBlocks]))
        → reached = ops.foldl (HeadOp.run grownHost) (chain.initGenesis grownHost genesis)
        → forkPoint ≤ reached.blockNumber
        → (∀ outcome, (reached.executeReorg grownHost forkPoint newBlocks).1 = .ok outcome
            → outcome.blocksApplied < newBlocks.length)
        → HeadKept grownHost reached
            (reached.executeReorg grownHost forkPoint newBlocks).2 := by
  intro claimed
  have kept := claimed (.genesis 0) grownOnce 0 brokenBranch genesisChain grownChain rfl
    collisionFree_grownOnce readBack_grownOnce rfl (by decide +kernel) incomplete_brokenBranch
  exact absurd kept.head (by decide +kernel)

end LostHead

end VeloChain.Chain
