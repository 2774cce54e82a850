import VeloChain.Node.Atomicity
import VeloChain.Node.NetworkHandler

/-! A node that catches up by the blocks of its peers.
Among the received blocks are those of a chain on top of the head of the node, in any order,
and others that fail the first checks. Each block of the chain is applied or waits in the
buffer, as long as no other block takes its place there and it is not removed for lack of room.
-/

namespace VeloChain

variable {F : Type} [F32 F] {host : Host F}

namespace Chain

/-- The blocks can be applied one after another, whatever the orders of the walks. -/
def Extends (host : Host F) : List Block → Chain F → Prop
  | [], _ => True
  | block :: rest, chain =>
      ∀ order, ∃ next,
        chain.applyBlock host order block = (.ok (), next) ∧ Extends host rest next

/-- An applied block has the next number, and the head has it afterwards. -/
theorem blockNumber_applyBlock {order : BlockOrder F} {block : Block} {chain next : Chain F}
    (applied : chain.applyBlock host order block = (.ok (), next))
    : block.number = chain.blockNumber + 1 ∧ next.blockNumber = block.number := by
  obtain ⟨accepted, rfl⟩ := applyBlock_ok_iff.mp applied
  have rules := PoaConsensus.verifyBlock_header accepted.verified
  refine ⟨?_, rfl⟩
  unfold blockNumber
  rw [accepted.head]
  exact rules.number

/-- Whether a block is applied does not depend on the pool. -/
theorem applyBlock_withPool {order : BlockOrder F} {block : Block} {chain next : Chain F}
    (txpool : TransactionPool) (applied : chain.applyBlock host order block = (.ok (), next))
    : ∃ after, ({ chain with txpool } : Chain F).applyBlock host order block
        = (.ok (), { next with txpool := after }) := by
  obtain ⟨accepted, rfl⟩ := applyBlock_ok_iff.mp applied
  let alike : Accepted host order block { chain with txpool } :=
    ⟨accepted.parent, accepted.parts, accepted.executed, accepted.processed, accepted.root,
      accepted.world, accepted.head, accepted.verified, accepted.partitioned,
      accepted.executes, accepted.processes, accepted.ticks⟩
  exact ⟨alike.result.txpool, applyBlock_ok_iff.mpr ⟨alike, rfl⟩⟩

/-- By induction on the blocks. -/
theorem Extends.withPool {blocks : List Block} {chain : Chain F} (valid : chain.Extends host blocks)
    (txpool : TransactionPool)
    : ({ chain with txpool } : Chain F).Extends host blocks := by
  induction blocks generalizing chain txpool with
  | nil => trivial
  | cons block rest ih =>
      intro order
      obtain ⟨next, applied, valid⟩ := valid order
      obtain ⟨after, applied⟩ := applyBlock_withPool txpool applied
      exact ⟨_, applied, ih valid after⟩

/-- The head that `start` has after the first `count` of the blocks. -/
def headAfter (start : Chain F) (blocks : List Block) (count : Nat) : Option BlockHeader :=
  ((blocks.take count).getLast?.map Block.header).or start.head

/-- The block fails the first checks on top of each of the heads: header or seal is wrong, or
the sender of a game action cannot be recovered.
-/
def Refused (host : Host F) (start : Chain F) (blocks : List Block) (block : Block) : Prop :=
  (∀ count parent,
    start.headAfter blocks count = some parent
    → start.consensus.verifyBlock host.crypto block parent ≠ .ok ())
  ∨ ∃ tx ∈ block.body.transactions, ¬ Partition.Recovers host.crypto tx

/-- What `start` has become with the first `count` of the blocks. -/
structure Reached (host : Host F) (start : Chain F) (blocks : List Block) (count : Nat)
    (chain : Chain F) : Prop where
  number : chain.blockNumber.toNat = start.blockNumber.toNat + count
  head : chain.head = start.headAfter blocks count
  rest : chain.Extends host (blocks.drop count)
  consensus : chain.consensus = start.consensus
  le : count ≤ blocks.length

section Reached

variable {start chain : Chain F} {blocks : List Block} {count : Nat}

theorem Reached.zero (valid : start.Extends host blocks) : Reached host start blocks 0 start :=
  ⟨rfl, by simp [headAfter], valid, rfl, Nat.zero_le _⟩

/-- The next block of the chain is applied. -/
theorem Reached.next (reached : Reached host start blocks count chain)
    (small : start.blockNumber.toNat + blocks.length < 2 ^ 64) {block : Block}
    (isNext : blocks[count]? = some block) (order : BlockOrder F)
    : ∃ next,
        chain.applyBlock host order block = (.ok (), next)
        ∧ block.number.toNat = start.blockNumber.toNat + count + 1
        ∧ Reached host start blocks (count + 1) next := by
  obtain ⟨lt, isBlock⟩ := List.getElem?_eq_some_iff.mp isNext
  have rest := reached.rest
  rw [List.drop_eq_getElem_cons lt, isBlock] at rest
  obtain ⟨next, applied, valid⟩ := rest order
  obtain ⟨follows, becomes⟩ := blockNumber_applyBlock applied
  have number : block.number.toNat = start.blockNumber.toNat + count + 1 := by
    rw [follows, UInt64.toNat_add, UInt64.toNat_one, reached.number]
    omega
  refine ⟨next, applied, number, by rw [becomes, number, Nat.add_assoc], ?_, valid, ?_, lt⟩
  · obtain ⟨accepted, rfl⟩ := applyBlock_ok_iff.mp applied
    rw [headAfter, List.take_add_one, isNext]
    simp [Accepted.result, finalize]
  · have config := (@applyBlock_config F _ host order block chain).1
    rw [applied] at config
    exact config.trans reached.consensus

/-- A refused block leaves the chain as it is. -/
theorem Reached.refused (reached : Reached host start blocks count chain) {block : Block}
    (refused : Refused host start blocks block) (order : BlockOrder F)
    : ∃ e, chain.applyBlock host order block = (.error e, chain) := by
  apply applyBlock_of_rejectedEarly
  cases head : chain.head with
  | none => exact Or.inl head
  | some parent =>
      rcases refused with wrong | unsigned
      · right
        left
        refine ⟨parent, head, ?_⟩
        rw [reached.consensus]
        exact wrong count parent (reached.head.symm.trans head)
      · exact Or.inr (Or.inr unsigned)

theorem Reached.withPool (reached : Reached host start blocks count chain)
    (txpool : TransactionPool)
    : Reached host start blocks count { chain with txpool } :=
  ⟨reached.number, reached.head, reached.rest.withPool txpool, reached.consensus, reached.le⟩

/-- The blocks of the chain count on from its head, by induction on them. -/
theorem Extends.numbered (valid : start.Extends host blocks)
    (small : start.blockNumber.toNat + blocks.length < 2 ^ 64) {i : Nat} {block : Block}
    (isBlock : blocks[i]? = some block)
    : block.number.toNat = start.blockNumber.toNat + i + 1 := by
  obtain ⟨order⟩ := @BlockOrder.nonempty F
  have all : ∀ count, count ≤ i → ∃ chain, Reached host start blocks count chain := by
    intro count
    induction count with
    | zero => exact fun _ => ⟨start, .zero valid⟩
    | succ count ih =>
        intro le
        obtain ⟨chain, reached⟩ := ih (by omega)
        obtain ⟨lt, _⟩ := List.getElem?_eq_some_iff.mp isBlock
        obtain ⟨next, _, _, later⟩ := reached.next small
          (List.getElem?_eq_getElem (by omega)) order
        exact ⟨next, later⟩
  obtain ⟨chain, reached⟩ := all i (Nat.le_refl i)
  obtain ⟨_, _, number, _⟩ := reached.next small isBlock order
  exact number

end Reached

end Chain

-----------------------------------------------------------------------------------------
-- The handler while the blocks arrive
-----------------------------------------------------------------------------------------

namespace NetworkHandler

open Chain

/-- A block of the chain, or one that fails the first checks. -/
def Known (host : Host F) (start : Chain F) (blocks : List Block) (block : Block) : Prop :=
  block ∈ blocks ∨ Refused host start blocks block

/-- The handler has applied the first `count` of the blocks. Each of the others that arrived
waits in the buffer under its number.
-/
structure Following (host : Host F) (start : Chain F) (blocks : List Block)
    (arrived : Block → Prop) (count : Nat) (handler : NetworkHandler F) : Prop where
  reached : Reached host start blocks count handler.chain
  filed
    : ∀ number entry, handler.blockBuffer.lookup number = some entry
        → entry.1.number.toNat = number ∧ arrived entry.1 ∧ Known host start blocks entry.1
  ahead
    : count < blocks.length
        → ∀ number entry, handler.blockBuffer.lookup number = some entry
          → start.blockNumber.toNat + count < number
  waiting
    : ∀ block ∈ blocks, arrived block
        → block.number.toNat ≤ start.blockNumber.toNat + count
          ∨ ∃ order, handler.blockBuffer.lookup block.number.toNat = some (block, order)

/-- Between two events the block that is needed next is not in the buffer. -/
structure Settled (host : Host F) (start : Chain F) (blocks : List Block)
    (arrived : Block → Prop) (count : Nat) (handler : NetworkHandler F) : Prop
    extends Following host start blocks arrived count handler where
  cleared
    : count < blocks.length
        → handler.blockBuffer.lookup (start.blockNumber.toNat + count + 1) = none
  limited : handler.blockBuffer.keys.card ≤ 1000

section Turns

variable {start : Chain F} {blocks : List Block} {arrived : Block → Prop} {count : Nat}
  {handler : NetworkHandler F}

omit [F32 F] in
theorem card_erase_lt {m : FinMap Nat (Block × BlockOrder F)} {key : Nat}
    {entry : Block × BlockOrder F} (found : m.lookup key = some entry)
    : (m.erase key).keys.card < m.keys.card := by
  rw [Finmap.keys_erase]
  exact Finset.card_erase_lt_of_mem
    (Finmap.mem_keys.mpr (Finmap.mem_of_lookup_eq_some found))

omit [F32 F] in
theorem lookup_of_erase {m : FinMap Nat (Block × BlockOrder F)} {key gone : Nat}
    {entry : Block × BlockOrder F} (kept : (m.erase gone).lookup key = some entry)
    : m.lookup key = some entry := by
  rw [FinMap.lookup_erase_eq] at kept
  split at kept
  next => simp at kept
  next => exact kept

/-- A block of the chain is found at the place that its number says. -/
theorem position (valid : start.Extends host blocks)
    (small : start.blockNumber.toNat + blocks.length < 2 ^ 64) {block : Block}
    (member : block ∈ blocks)
    : ∃ i,
        blocks[i]? = some block
        ∧ i < blocks.length
        ∧ block.number.toNat = start.blockNumber.toNat + i + 1 := by
  obtain ⟨i, isBlock⟩ := List.mem_iff_getElem?.mp member
  exact ⟨i, isBlock, (List.getElem?_eq_some_iff.mp isBlock).choose,
    valid.numbered small isBlock⟩

theorem Following.expected_eq (following : Following host start blocks arrived count handler)
    (small : start.blockNumber.toNat + blocks.length < 2 ^ 64)
    (more : count < blocks.length)
    : handler.expected = start.blockNumber.toNat + count + 1 := by
  rw [expected, UInt64.toNat_add, UInt64.toNat_one, following.reached.number]
  omega

/-- Once all blocks are applied, no block of the chain has the expected number. -/
theorem Following.expected_ne (following : Following host start blocks arrived count handler)
    (valid : start.Extends host blocks)
    (small : start.blockNumber.toNat + blocks.length < 2 ^ 64)
    (all : blocks.length ≤ count) {block : Block} (member : block ∈ blocks)
    : block.number.toNat ≠ handler.expected := by
  obtain ⟨i, _, lt, number⟩ := position valid small member
  have next := following.reached.number
  have bound := handler.chain.blockNumber.toNat_lt
  rw [expected, UInt64.toNat_add, UInt64.toNat_one, next]
  omega

/-- It matters only which blocks arrived. -/
theorem Settled.congr (settled : Settled host start blocks arrived count handler)
    {came : Block → Prop} (same : ∀ block, arrived block ↔ came block)
    : Settled host start blocks came count handler :=
  funext (fun block => propext (same block)) ▸ settled

/-- Removing buffered blocks that are applied or of no use keeps the node following. -/
theorem Following.remove (following : Following host start blocks arrived count handler)
    {later : Nat} (le : count ≤ later) {after : NetworkHandler F}
    (reached : Reached host start blocks later after.chain)
    (left
      : ∀ number entry, after.blockBuffer.lookup number = some entry
          → handler.blockBuffer.lookup number = some entry)
    (passed
      : later < blocks.length
          → ∀ number ≤ start.blockNumber.toNat + later, after.blockBuffer.lookup number = none)
    (removed
      : ∀ number entry, handler.blockBuffer.lookup number = some entry
          → after.blockBuffer.lookup number = some entry
            ∨ number ≤ start.blockNumber.toNat + later
            ∨ entry.1 ∉ blocks)
    : Following host start blocks arrived later after := by
  refine ⟨reached, fun number entry found => following.filed number entry (left _ _ found),
    ?_, ?_⟩
  · intro more number entry found
    by_contra low
    have gone := passed more number (Nat.not_lt.mp low)
    simp [gone] at found
  · intro block member came
    rcases following.waiting block member came with applied | ⟨order, found⟩
    · exact Or.inl (by omega)
    · rcases removed _ _ found with kept | low | other
      · exact Or.inr ⟨order, kept⟩
      · exact Or.inl low
      · exact absurd member other

/-- The next block is taken from the buffer and applied. -/
theorem Following.takeNext (following : Following host start blocks arrived count handler)
    (valid : start.Extends host blocks)
    (small : start.blockNumber.toNat + blocks.length < 2 ^ 64) {entry : Block × BlockOrder F}
    (found : handler.blockBuffer.lookup handler.expected = some entry)
    (member : entry.1 ∈ blocks)
    : ∃ chain,
        handler.chain.applyBlock host entry.2 entry.1 = (.ok (), chain)
        ∧ Following host start blocks arrived (count + 1)
            { chain
              blockBuffer := handler.blockBuffer.erase handler.expected
              requestedBlocks := handler.requestedBlocks.erase handler.expected } := by
  have number := (following.filed _ _ found).1
  have more : count < blocks.length := by
    by_contra all
    exact following.expected_ne valid small (Nat.not_lt.mp all) member number
  have next := following.expected_eq small more
  obtain ⟨i, isBlock, _, place⟩ := position valid small member
  obtain rfl : i = count := by omega
  obtain ⟨chain, applied, _, reached⟩ := following.reached.next small isBlock entry.2
  refine ⟨chain, applied, ?_⟩
  apply following.remove (Nat.le_succ _) reached
  · intro number entry kept
    exact lookup_of_erase kept
  · intro _ low le
    cases kept : (handler.blockBuffer.erase handler.expected).lookup low with
    | none => rfl
    | some entry =>
        have above := following.ahead more _ _ (lookup_of_erase kept)
        have other : low ≠ handler.expected := by
          rintro rfl
          simp [Finmap.lookup_erase] at kept
        omega
  · intro number entry kept
    by_cases same : number = handler.expected
    · exact Or.inr (Or.inl (by omega))
    · left
      rwa [Finmap.lookup_erase_ne same]

/-- A refused block is taken from the buffer and dropped. -/
theorem Following.dropNext (following : Following host start blocks arrived count handler)
    {entry : Block × BlockOrder F}
    (found : handler.blockBuffer.lookup handler.expected = some entry)
    (other : entry.1 ∉ blocks)
    : (∃ e, handler.chain.applyBlock host entry.2 entry.1 = (.error e, handler.chain))
      ∧ Following host start blocks arrived count
          { handler with blockBuffer := handler.blockBuffer.erase handler.expected } := by
  have known := (following.filed _ _ found).2.2
  refine ⟨following.reached.refused (known.resolve_left other) entry.2, ?_⟩
  apply following.remove (Nat.le_refl _)
  · exact following.reached
  · intro number entry kept
    exact lookup_of_erase kept
  · intro more low le
    cases kept : (handler.blockBuffer.erase handler.expected).lookup low with
    | none => rfl
    | some entry =>
        have above := following.ahead more _ _ (lookup_of_erase kept)
        omega
  · intro number entry kept
    by_cases same : number = handler.expected
    · rw [same, found] at kept
      obtain rfl := Option.some.inj kept
      exact Or.inr (Or.inr other)
    · left
      rwa [Finmap.lookup_erase_ne same]

/-- After the buffered blocks were applied, the next one is not in the buffer. The induction is
on the rounds, of which there are enough to empty it.
-/
theorem Following.applyBuffered
    (following : Following host start blocks arrived count handler)
    (valid : start.Extends host blocks)
    (small : start.blockNumber.toNat + blocks.length < 2 ^ 64) {rounds : Nat}
    (enough : handler.blockBuffer.keys.card ≤ rounds)
    : ∃ later,
        count ≤ later
        ∧ Following host start blocks arrived later (handler.applyBuffered host rounds)
        ∧ (later < blocks.length
            → (handler.applyBuffered host rounds).blockBuffer.lookup
                (start.blockNumber.toNat + later + 1) = none)
        ∧ (handler.applyBuffered host rounds).blockBuffer.keys.card
            ≤ handler.blockBuffer.keys.card := by
  induction rounds generalizing handler count with
  | zero =>
      have empty := FinMap.card_eq_zero_iff.mp (Nat.le_zero.mp enough)
      exact ⟨count, Nat.le_refl _, following, fun _ => empty _, Nat.le_refl _⟩
  | succ rounds ih =>
      cases found : handler.blockBuffer.lookup handler.expected with
      | none =>
          rw [applyBuffered_of_none _ found]
          refine ⟨count, Nat.le_refl _, following, ?_, Nat.le_refl _⟩
          intro more
          rwa [← following.expected_eq small more]
      | some entry =>
          have smaller := card_erase_lt found
          by_cases member : entry.1 ∈ blocks
          · obtain ⟨chain, applied, follows⟩ := following.takeNext valid small found member
            obtain ⟨later, le, follows, cleared, fewer⟩ :=
              ih follows (Nat.le_of_lt_succ (Nat.lt_of_lt_of_le smaller enough))
            rw [applyBuffered_of_applied found applied]
            exact ⟨later, Nat.le_of_succ_le le, follows, cleared,
              Nat.le_trans fewer (Nat.le_of_lt smaller)⟩
          · obtain ⟨⟨e, failed⟩, follows⟩ := following.dropNext found member
            rw [applyBuffered_of_failed found failed]
            refine ⟨count, Nat.le_refl _, follows, ?_, Nat.le_of_lt smaller⟩
            intro more
            rw [← following.expected_eq small more, Finmap.lookup_erase]

/-- Blocks that are applied already make no difference when they arrive again. -/
theorem Following.note (following : Following host start blocks arrived count handler)
    {block : Block}
    (applied : block ∈ blocks → block.number.toNat ≤ start.blockNumber.toNat + count)
    : Following host start blocks (fun b => arrived b ∨ b = block) count handler := by
  refine ⟨following.reached, ?_, following.ahead, ?_⟩
  · intro number entry found
    obtain ⟨isNumber, came, known⟩ := following.filed number entry found
    exact ⟨isNumber, Or.inl came, known⟩
  · rintro b member (came | rfl)
    · exact following.waiting b member came
    · exact Or.inl (applied member)

/-- Once all blocks are applied, it does not matter what the buffer holds. -/
theorem Following.complete (following : Following host start blocks arrived count handler)
    (valid : start.Extends host blocks)
    (small : start.blockNumber.toNat + blocks.length < 2 ^ 64) (all : blocks.length ≤ count)
    {came : Block → Prop} {after : NetworkHandler F} (same : after.chain = handler.chain)
    (filed
      : ∀ number entry, after.blockBuffer.lookup number = some entry
          → entry.1.number.toNat = number ∧ came entry.1 ∧ Known host start blocks entry.1)
    : Following host start blocks came count after := by
  refine ⟨same ▸ following.reached, filed, fun more => absurd more (Nat.not_lt.mpr all), ?_⟩
  intro block member _
  obtain ⟨i, _, lt, number⟩ := position valid small member
  exact Or.inl (by omega)

/-- A block from further ahead is buffered, where it takes the place of no block of the chain.
-/
theorem Following.insert (following : Following host start blocks arrived count handler)
    (valid : start.Extends host blocks)
    (small : start.blockNumber.toNat + blocks.length < 2 ^ 64)
    (more : count < blocks.length) {block : Block} (order : BlockOrder F)
    (known : Known host start blocks block) (early : handler.expected < block.number.toNat)
    (displaces
      : block ∉ blocks
          → ∀ entry, handler.blockBuffer.lookup block.number.toNat = some entry
            → entry.1 ∉ blocks)
    (requestedBlocks : Finset Nat)
    : Following host start blocks (fun b => arrived b ∨ b = block) count
        { handler with
          blockBuffer := handler.blockBuffer.insert block.number.toNat (block, order)
          requestedBlocks } := by
  have next := following.expected_eq small more
  refine ⟨following.reached, ?_, ?_, ?_⟩
  · intro number entry found
    rw [FinMap.lookup_insert_eq] at found
    split at found
    next same =>
      obtain rfl := Option.some.inj found
      exact ⟨same.symm, Or.inr rfl, known⟩
    next =>
      obtain ⟨isNumber, came, known⟩ := following.filed number entry found
      exact ⟨isNumber, Or.inl came, known⟩
  · intro _ number entry found
    rw [FinMap.lookup_insert_eq] at found
    split at found
    next same => omega
    next => exact following.ahead more number entry found
  · rintro b member (came | rfl)
    · rcases following.waiting b member came with applied | ⟨walk, found⟩
      · exact Or.inl applied
      · right
        change ∃ order', (handler.blockBuffer.insert _ _).lookup _ = some (b, order')
        rw [FinMap.lookup_insert_eq]
        split
        next same =>
          by_cases genuine : block ∈ blocks
          · obtain ⟨i, isBlock, _, place⟩ := position valid small genuine
            obtain ⟨j, isOther, _, other⟩ := position valid small member
            obtain rfl : i = j := by omega
            obtain rfl := Option.some.inj (isBlock.symm.trans isOther)
            exact ⟨order, rfl⟩
          · rw [same] at found
            exact absurd member (displaces genuine _ found)
        next => exact ⟨walk, found⟩
    · exact Or.inr ⟨order, Finmap.lookup_insert _⟩

/-- Limiting the buffer removes no block of the chain, unless one is the lowest of a buffer
that is too large.
-/
theorem Following.limit (following : Following host start blocks arrived count handler)
    (fits : handler.blockBuffer.keys.card ≤ 1001)
    (evicts
      : handler.blockBuffer.keys.card = 1001
          → ∀ first entry, handler.blockBuffer.lookup first = some entry
            → (∀ key ∈ handler.blockBuffer, first ≤ key)
            → entry.1 ∉ blocks)
    : Following host start blocks arrived count handler.limitBuffer := by
  rcases Nat.lt_or_eq_of_le fits with room | full
  · rwa [limitBuffer, FinMap.popDownTo_of_card_le (Nat.le_of_lt_succ room)]
  · obtain ⟨key, member⟩ := Finset.card_pos.mp (by omega : 0 < handler.blockBuffer.keys.card)
    obtain ⟨first, isKey, least⟩ := FinMap.exists_least (Finmap.mem_keys.mp member)
    rw [limitBuffer, FinMap.popDownTo_of_card_eq_succ full, FinMap.popFirst_eq_erase isKey least]
    apply following.remove (Nat.le_refl _)
    · exact following.reached
    · intro number entry kept
      exact lookup_of_erase kept
    · intro more low le
      cases kept : (handler.blockBuffer.erase first).lookup low with
      | none => rfl
      | some entry =>
          have above := following.ahead more _ _ (lookup_of_erase kept)
          omega
    · intro number entry kept
      by_cases same : number = first
      · rw [same] at kept
        exact Or.inr (Or.inr (evicts full first entry kept least))
      · left
        rwa [Finmap.lookup_erase_ne same]

/-- What a received block may not do while blocks of the chain are missing: take the place of
one of them in the buffer, or make the buffer so large that one of them is removed as the
lowest.
-/
structure Harmless (blocks : List Block) (block : Block) (order : BlockOrder F)
    (handler : NetworkHandler F) : Prop where
  displaces
    : block ∉ blocks
        → ∀ entry, handler.blockBuffer.lookup block.number.toNat = some entry
          → entry.1 ∉ blocks
  evicts
    : handler.expected < block.number.toNat
        → (handler.blockBuffer.insert block.number.toNat (block, order)).keys.card = 1001
        → ∀ first entry,
            (handler.blockBuffer.insert block.number.toNat (block, order)).lookup first
              = some entry
            → (∀ key ∈ handler.blockBuffer.insert block.number.toNat (block, order),
                first ≤ key)
            → entry.1 ∉ blocks

/-- The next block is applied, and those that wait for it. -/
theorem Settled.onNext (settled : Settled host start blocks arrived count handler)
    (valid : start.Extends host blocks)
    (small : start.blockNumber.toNat + blocks.length < 2 ^ 64) {block : Block}
    (order : BlockOrder F) (member : block ∈ blocks)
    (isNext : block.number.toNat = handler.expected)
    : ∃ later,
        Settled host start blocks (fun b => arrived b ∨ b = block) later
          (handler.onBlock host block order).2 := by
  have following := settled.toFollowing
  have more : count < blocks.length := by
    by_contra all
    exact following.expected_ne valid small (Nat.not_lt.mp all) member isNext
  have next := following.expected_eq small more
  obtain ⟨i, isBlock, _, number⟩ := position valid small member
  obtain rfl : i = count := by omega
  obtain ⟨chain, applied, _, reached⟩ := following.reached.next small isBlock order
  have follows
      : Following host start blocks arrived (i + 1)
          { handler with
            chain
            requestedBlocks := handler.requestedBlocks.erase block.number.toNat } := by
    apply following.remove (Nat.le_succ _)
    · exact reached
    · exact fun _ _ kept => kept
    · intro _ low le
      cases kept : handler.blockBuffer.lookup low with
      | none => rfl
      | some entry =>
          have above := following.ahead more _ _ kept
          have absent := settled.cleared more
          have other : low ≠ start.blockNumber.toNat + i + 1 := by
            rintro rfl
            simp [kept] at absent
          omega
    · exact fun _ _ kept => Or.inl kept
  have noted := follows.note (fun _ : block ∈ blocks => Nat.le_of_eq number)
  obtain ⟨later, le, follows, cleared, fewer⟩ :=
    noted.applyBuffered valid small (Nat.le_refl _)
  have limited := Nat.le_trans fewer settled.limited
  rw [onBlock_of_applied isNext applied, limitBuffer_of_card_le limited]
  exact ⟨later, follows, cleared, limited⟩

/-- A block from further ahead is buffered. -/
theorem Settled.onEarly (settled : Settled host start blocks arrived count handler)
    (valid : start.Extends host blocks)
    (small : start.blockNumber.toNat + blocks.length < 2 ^ 64) {block : Block}
    {order : BlockOrder F} (known : Known host start blocks block)
    (early : handler.expected < block.number.toNat)
    (harmless : count < blocks.length → Harmless blocks block order handler)
    : Settled host start blocks (fun b => arrived b ∨ b = block) count
        (handler.onBlock host block order).2 := by
  have following := settled.toFollowing
  obtain ⟨commands, requestedBlocks, turn, _⟩ := @onBlock_of_gt F _ host _ order _ early
  rw [turn]
  by_cases more : count < blocks.length
  · have inserted := following.insert valid small more order known early
      (harmless more).displaces requestedBlocks
    have fits
        : (handler.blockBuffer.insert block.number.toNat (block, order)).keys.card ≤ 1001 := by
      rw [FinMap.keys_insert]
      exact Nat.le_trans (Finset.card_insert_le _ _) (Nat.succ_le_succ settled.limited)
    refine ⟨inserted.limit fits ((harmless more).evicts early), ?_, card_limitBuffer_le _⟩
    intro _
    have next := following.expected_eq small more
    have absent := settled.cleared more
    apply Option.eq_none_iff_forall_ne_some.mpr
    intro entry kept
    have there := lookup_limitBuffer_some kept
    rw [Finmap.lookup_insert_of_ne _ (by omega), absent] at there
    simp at there
  · refine ⟨following.complete valid small (Nat.not_lt.mp more) rfl ?_,
      fun less => absurd less more, card_limitBuffer_le _⟩
    intro number entry kept
    have there := lookup_limitBuffer_some kept
    rw [FinMap.lookup_insert_eq] at there
    split at there
    next same =>
      obtain rfl := Option.some.inj there
      exact ⟨same.symm, Or.inr rfl, known⟩
    next =>
      obtain ⟨isNumber, came, known⟩ := following.filed number entry there
      exact ⟨isNumber, Or.inl came, known⟩

/-- One received block keeps the handler settled. -/
theorem Settled.onBlock (settled : Settled host start blocks arrived count handler)
    (valid : start.Extends host blocks)
    (small : start.blockNumber.toNat + blocks.length < 2 ^ 64) {block : Block}
    {order : BlockOrder F} (known : Known host start blocks block)
    (harmless : count < blocks.length → Harmless blocks block order handler)
    : ∃ later,
        Settled host start blocks (fun b => arrived b ∨ b = block) later
          (handler.onBlock host block order).2 := by
  have following := settled.toFollowing
  rcases Nat.lt_trichotomy block.number.toNat handler.expected with old | isNext | early
  · rw [onBlock_of_lt old]
    refine ⟨count, following.note ?_, settled.cleared, settled.limited⟩
    intro member
    obtain ⟨i, _, lt, number⟩ := position valid small member
    by_cases more : count < blocks.length
    · have next := following.expected_eq small more
      omega
    · omega
  · by_cases member : block ∈ blocks
    · exact settled.onNext valid small order member isNext
    · obtain ⟨e, failed⟩ := following.reached.refused (known.resolve_left member) order
      rw [onBlock_of_failed isNext failed]
      refine ⟨count, ?_⟩
      rw [limitBuffer_of_card_le settled.limited]
      exact ⟨following.note (fun isBlock => absurd isBlock member), settled.cleared,
        settled.limited⟩
  · exact ⟨count, settled.onEarly valid small known early harmless⟩

/-- Any event keeps the handler settled. -/
theorem Settled.onEvent (settled : Settled host start blocks arrived count handler)
    (valid : start.Extends host blocks)
    (small : start.blockNumber.toNat + blocks.length < 2 ^ 64) {event : NetworkEvent F}
    (known
      : ∀ block order, event.received = some (block, order) → Known host start blocks block)
    (harmless
      : count < blocks.length
          → ∀ block order, event.received = some (block, order)
            → Harmless blocks block order handler)
    : ∃ later,
        Settled host start blocks
          (fun b => arrived b ∨ ∃ order, event.received = some (b, order)) later
          (handler.onEvent host event).2 := by
  cases received : event.received with
  | none =>
      obtain ⟨⟨txpool, frame⟩, _⟩ := @onEvent_of_no_block F _ host _ received handler
      rw [frame]
      refine ⟨count, ⟨settled.reached.withPool txpool, ?_, settled.ahead, ?_⟩,
        settled.cleared, settled.limited⟩
      · intro number entry found
        obtain ⟨isNumber, came, known⟩ := settled.filed number entry found
        exact ⟨isNumber, Or.inl came, known⟩
      · rintro b member (came | ⟨_, other⟩)
        · exact settled.waiting b member came
        · simp at other
  | some entry =>
      obtain ⟨block, order⟩ := entry
      rw [onEvent_of_block received]
      obtain ⟨later, after⟩ := settled.onBlock valid small (known block order received)
        (fun more => harmless more block order received)
      refine ⟨later, after.congr ?_⟩
      intro b
      apply or_congr_right
      constructor
      · rintro rfl
        exact ⟨order, rfl⟩
      · rintro ⟨_, same⟩
        exact (Prod.mk.inj (Option.some.inj same)).1.symm

/-- A settled handler has got as far as the first missing block. -/
theorem Settled.le_count (settled : Settled host start blocks arrived count handler)
    (valid : start.Extends host blocks)
    (small : start.blockNumber.toNat + blocks.length < 2 ^ 64) {upTo : Nat}
    (le : upTo ≤ blocks.length) (came : ∀ block ∈ blocks.take upTo, arrived block)
    : upTo ≤ count := by
  by_contra behind
  have more : count < blocks.length := by omega
  -- the block after the head came, and is neither applied nor in the buffer
  have number := valid.numbered small (List.getElem?_eq_getElem more)
  have inTime : blocks[count] ∈ blocks.take upTo :=
    List.mem_take_iff_getElem.mpr ⟨count, by omega, rfl⟩
  rcases settled.waiting _ (List.getElem_mem more) (came _ inTime) with done | ⟨_, found⟩
  · omega
  · have absent := settled.cleared more
    rw [← number, found] at absent
    simp at absent

end Turns

-----------------------------------------------------------------------------------------
-- Runs
-----------------------------------------------------------------------------------------

/-- What the event loop did with the events, one turn after another. -/
def turns (host : Host F) (events : List (NetworkEvent F)) (start : Chain F)
    : List (ReturnedCall (NetworkHandler F) (NetworkEvent F) (List NetworkCommand)) :=
  CallTrace.calls (handle host) events (.new start)

/-- The state the event loop reaches. -/
def runEvents (host : Host F) (events : List (NetworkEvent F)) (start : Chain F)
    : NetworkHandler F :=
  CallTrace.final (handle host) events (.new start)

/-- The block is received in the run. -/
def Delivered (events : List (NetworkEvent F)) (block : Block) : Prop :=
  ∃ event ∈ events, ∃ order, event.received = some (block, order)

/-- The event brings no block, a block of the chain, or a block that fails the first checks. As
long as blocks of the chain are missing, none of them loses its place in the buffer.
-/
structure Undisturbed (host : Host F) (start : Chain F) (blocks : List Block)
    (event : NetworkEvent F) (handler : NetworkHandler F) : Prop where
  known
    : ∀ block order, event.received = some (block, order) → Known host start blocks block
  harmless
    : handler.chain.blockNumber.toNat < start.blockNumber.toNat + blocks.length
        → ∀ block order, event.received = some (block, order)
          → Harmless blocks block order handler

section Runs

variable {start : Chain F} {blocks : List Block} {events : List (NetworkEvent F)}

omit [F32 F] in
theorem delivered_append {earlier later : List (NetworkEvent F)} {block : Block}
    : Delivered (earlier ++ later) block ↔ Delivered earlier block ∨ Delivered later block := by
  simp only [Delivered, List.mem_append, or_and_right, exists_or]

omit [F32 F] in
theorem delivered_singleton {event : NetworkEvent F} {block : Block}
    : Delivered [event] block ↔ ∃ order, event.received = some (block, order) := by
  simp only [Delivered, List.mem_singleton, exists_eq_left]

/-- The announcements of blocks, all applied with one order of the walks. -/
def announce (order : BlockOrder F) (blocks : List Block) : List (NetworkEvent F) :=
  blocks.map (fun block => .blockReceived block order)

omit [F32 F] in
theorem delivered_announce {order : BlockOrder F} {blocks : List Block} {block : Block}
    : Delivered (announce order blocks) block ↔ block ∈ blocks := by
  constructor
  · rintro ⟨event, isEvent, _, received⟩
    obtain ⟨_, isBlock, rfl⟩ := List.mem_map.mp isEvent
    obtain ⟨rfl, _⟩ := Prod.mk.inj (Option.some.inj received)
    exact isBlock
  · exact fun member => ⟨_, List.mem_map_of_mem member, _, rfl⟩

theorem handle_returns (event : NetworkEvent F) (handler : NetworkHandler F)
    : ∃ commands after, handle host event handler = some (commands, after) :=
  ⟨_, _, rfl⟩

/-- One more announcement is one more received block. -/
theorem runEvents_announce_concat (order : BlockOrder F) (blocks : List Block) (block : Block)
    : runEvents host (announce order (blocks ++ [block])) start
      = ((runEvents host (announce order blocks) start).onBlock host block order).2 := by
  unfold runEvents announce
  rw [List.map_append, CallTrace.final_append_of_returns handle_returns]
  rfl

theorem map_op_turns : (turns host events start).map ReturnedCall.op = events :=
  CallTrace.map_op_calls handle_returns

theorem op_mem_events
    {turn : ReturnedCall (NetworkHandler F) (NetworkEvent F) (List NetworkCommand)}
    (isTurn : turn ∈ turns host events start)
    : turn.op ∈ events := by
  rw [← @map_op_turns F _ host start events]
  exact List.mem_map_of_mem isTurn

/-- What some turns of a run receive the run receives. -/
theorem Delivered.of_turns
    {past : List (ReturnedCall (NetworkHandler F) (NetworkEvent F) (List NetworkCommand))}
    {block : Block} (came : Delivered (past.map ReturnedCall.op) block)
    (ofRun : ∀ turn ∈ past, turn ∈ turns host events start)
    : Delivered events block := by
  obtain ⟨event, inPast, received⟩ := came
  obtain ⟨turn, isPast, rfl⟩ := List.mem_map.mp inPast
  exact ⟨turn.op, op_mem_events (ofRun turn isPast), received⟩

/-- Where no turn disturbs a settled handler, it is settled in the end. The induction is on the
turns.
-/
theorem settled_runEvents (valid : start.Extends host blocks)
    (small : start.blockNumber.toNat + blocks.length < 2 ^ 64)
    (undisturbed
      : ∀ turn ∈ turns host events start, ∀ arrived count,
          (∀ block, arrived block → Delivered events block)
          → Settled host start blocks arrived count turn.before
          → Undisturbed host start blocks turn.op turn.before)
    : ∃ count,
        Settled host start blocks (Delivered events) count (runEvents host events start) := by
  have settled := @CallTrace.past_invariant_final _ _ _ (handle host)
    (fun past state =>
      (∀ turn ∈ past, turn ∈ turns host events start)
      → ∃ count, Settled host start blocks (Delivered (past.map ReturnedCall.op)) count state)
    ?_ events (.new start) [] ?_
  · have atEnd := settled (fun _ isTurn => isTurn)
    rwa [List.nil_append,
      show (CallTrace.calls (handle host) events (.new start)).map ReturnedCall.op = events
        from map_op_turns] at atEnd
  · intro past turn kept handled ofRun
    rw [List.forall_mem_append] at ofRun
    obtain ⟨count, settled⟩ := kept ofRun.1
    have undisturbed := undisturbed turn (ofRun.2 turn (List.mem_singleton.mpr rfl)) _ count
      (fun block came => came.of_turns ofRun.1) settled
    obtain ⟨later, after⟩ := settled.onEvent valid small undisturbed.known (fun more =>
      undisturbed.harmless (by
        rw [settled.reached.number]
        omega))
    have next : (turn.before.onEvent host turn.op).2 = turn.after :=
      congrArg Prod.snd (Option.some.inj handled)
    rw [next] at after
    refine ⟨later, after.congr ?_⟩
    intro block
    rw [List.map_append, delivered_append, List.map_singleton, delivered_singleton]
  · intro _
    refine ⟨0, ⟨.zero valid, ?_, ?_, ?_⟩, fun _ => Finmap.lookup_empty _, Nat.zero_le _⟩
    · intro number entry found
      simp [NetworkHandler.new] at found
    · intro _ number entry found
      simp [NetworkHandler.new] at found
    · rintro block _ ⟨event, isOp, _⟩
      simp at isOp

/-- In an undisturbed run every received block of the chain is applied or waits in the buffer,
and once the first `count` of them have been received, the head has got that far.
-/
theorem delivered_applied (valid : start.Extends host blocks)
    (small : start.blockNumber.toNat + blocks.length < 2 ^ 64)
    (undisturbed
      : ∀ turn ∈ turns host events start, Undisturbed host start blocks turn.op turn.before)
    : (∀ block ∈ blocks, Delivered events block
          → block.number ≤ (runEvents host events start).chain.blockNumber
            ∨ ∃ order,
                (runEvents host events start).blockBuffer.lookup block.number.toNat
                  = some (block, order))
      ∧ ∀ count ≤ blocks.length, (∀ block ∈ blocks.take count, Delivered events block)
          → start.blockNumber.toNat + count
            ≤ (runEvents host events start).chain.blockNumber.toNat := by
  obtain ⟨applied, settled⟩ := settled_runEvents valid small
    (fun turn member _ _ _ _ => undisturbed turn member)
  constructor
  · intro block member came
    rw [UInt64.le_iff_toNat_le, settled.reached.number]
    exact settled.waiting block member came
  · intro count le came
    rw [settled.reached.number]
    exact Nat.add_le_add_left (settled.le_count valid small le came) _

end Runs

-----------------------------------------------------------------------------------------
-- Empty blocks
-----------------------------------------------------------------------------------------

/-- Blocks without transactions, one on top of the other. -/
def emptyBlocks : Nat → BlockHeader → List Block
  | 0, _ => []
  | count + 1, parent =>
      Block.following parent [] :: emptyBlocks count (Block.following parent []).header

/-- Empty blocks can be applied on top of any head, as long as their times do not wrap. -/
theorem extends_emptyBlocks {chain : Chain Milli} {parent : BlockHeader}
    (head : chain.head = some parent) {count : Nat}
    (inTime : parent.timestamp.toNat + count < 2 ^ 64)
    : chain.Extends (Host.reference []) (emptyBlocks count parent) := by
  induction count generalizing chain parent with
  | zero => trivial
  | succ count ih =>
      intro order
      have time
          : (Block.following parent []).header.timestamp.toNat
            = parent.timestamp.toNat + 1 := by
        change (parent.timestamp + 1).toNat = _
        rw [UInt64.toNat_add, UInt64.toNat_one]
        omega
      have rules
          : PoaConsensus.FollowsParent (Host.reference []).crypto
              (Block.following parent []).header parent :=
        ⟨rfl, rfl, UInt64.lt_iff_toNat_lt.mpr (by omega), rfl, rfl⟩
      obtain ⟨next, applied⟩ := (@applyBlock_accepts_iff Milli _ (Host.reference []) order
        (Block.following parent []) chain).mpr
          ⟨⟨parent, head, PoaConsensus.verifyBlock_of_followsParent rules rfl⟩,
            fun tx member => by simp [Block.following, Block.new] at member,
            trivial⟩
      refine ⟨next, applied, ih (applyBlock_grows head applied).2 ?_⟩
      omega

/-- A node with a genesis block only. -/
def genesisNode : Chain Milli := .reference (Host.reference []) .reference 9 0

/-- A block of the given number that no header can be the parent of. -/
def forgedBlock (number : UInt64) : Block :=
  Block.new { BlockHeader.genesis 0 with number, difficulty := 2 } []

theorem refused_forgedBlock (start : Chain Milli) (blocks : List Block) (number : UInt64)
    : Refused (Host.reference []) start blocks (forgedBlock number) := by
  left
  intro _ parent _ accepted
  have difficulty := (PoaConsensus.verifyBlock_header accepted).difficulty
  exact absurd difficulty (by decide : ¬ (2 : U256) = 1)

/-- The first block on top of the genesis block. -/
def firstBlock : Block := Block.following (.genesis 0) []

def secondBlock : Block := Block.following firstBlock.header []

theorem genesisNode_extends : genesisNode.Extends (Host.reference []) [firstBlock, secondBlock] :=
  @extends_emptyBlocks genesisNode (.genesis 0) rfl 2 (by decide)

/-- A forged block takes the place of a buffered one, which is lost. -/
theorem delivered_displaced
    : ¬ ∀ (host : Host Milli) (start : Chain Milli) (blocks : List Block)
          (events : List (NetworkEvent Milli)),
        start.Extends host blocks
        → start.blockNumber.toNat + blocks.length < 2 ^ 64
        → (∀ block, Delivered events block → Known host start blocks block)
        → (∀ block ∈ blocks, Delivered events block)
        → start.blockNumber.toNat + blocks.length
          ≤ (runEvents host events start).chain.blockNumber.toNat := by
  intro claimed
  have behind
      : (runEvents (Host.reference [])
          (announce (.ascending Milli) [secondBlock, forgedBlock 2, firstBlock])
          genesisNode).chain.blockNumber = 1 := by
    decide +kernel
  have reached := claimed (Host.reference []) genesisNode [firstBlock, secondBlock]
    (announce (.ascending Milli) [secondBlock, forgedBlock 2, firstBlock]) genesisNode_extends
    (by decide) ?_ ?_
  · rw [behind] at reached
    exact absurd reached (by decide)
  · intro block came
    have isBlock := delivered_announce.mp came
    simp only [List.mem_cons, List.not_mem_nil, or_false] at isBlock
    rcases isBlock with rfl | rfl | rfl
    · exact Or.inl (by simp)
    · exact Or.inr (refused_forgedBlock _ _ 2)
    · exact Or.inl (by simp)
  · intro block member
    rw [delivered_announce]
    simp only [List.mem_cons, List.not_mem_nil, or_false] at member ⊢
    rcases member with rfl | rfl
    · exact Or.inr (Or.inr rfl)
    · exact Or.inl rfl

/-- The forged block comes first and the second block takes its place. -/
def forgedFirst : List (NetworkEvent Milli) :=
  announce (.ascending Milli) [forgedBlock 2, secondBlock, firstBlock]

theorem undisturbed_forgedFirst
    : ∀ turn ∈ turns (Host.reference []) forgedFirst genesisNode,
        Undisturbed (Host.reference []) genesisNode [firstBlock, secondBlock] turn.op
          turn.before := by
  have buffers
      : ∀ turn ∈ turns (Host.reference []) forgedFirst genesisNode,
          turn.before.blockBuffer.keys.card ≤ 1
          ∧ (turn.op.received.any (fun entry => entry.1 = forgedBlock 2)
            → (turn.before.blockBuffer.lookup 2).isNone) := by
    decide +kernel
  intro turn member
  obtain ⟨few, empty⟩ := buffers turn member
  have isOp : turn.op ∈ forgedFirst := op_mem_events member
  have cases
      : ∀ block order, turn.op.received = some (block, order)
          → block = forgedBlock 2 ∨ block ∈ [firstBlock, secondBlock] := by
    intro block order received
    have isBlock := delivered_announce.mp ⟨turn.op, isOp, order, received⟩
    rcases List.mem_cons.mp isBlock with forged | genuine
    · exact Or.inl forged
    · exact Or.inr ((List.Perm.swap firstBlock secondBlock []).mem_iff.mp genuine)
  refine ⟨?_, fun _ block order received => ⟨?_, ?_⟩⟩
  · intro block order received
    rcases cases block order received with rfl | genuine
    · exact Or.inr (refused_forgedBlock _ _ 2)
    · exact Or.inl genuine
  · intro other entry found
    rcases cases block order received with rfl | genuine
    · have absent := empty (by simp [received])
      rw [show (forgedBlock 2).number.toNat = 2 from rfl] at found
      simp [found] at absent
    · exact absurd genuine other
  · intro _ full
    rw [FinMap.keys_insert] at full
    have card := Finset.card_insert_le block.number.toNat turn.before.blockBuffer.keys
    rw [full] at card
    exact absurd (Nat.le_trans card (Nat.succ_le_succ few)) (by decide)

theorem delivered_applied_forged
    : (∀ block ∈ [firstBlock, secondBlock], Delivered forgedFirst block
          → block.number
              ≤ (runEvents (Host.reference []) forgedFirst genesisNode).chain.blockNumber
            ∨ ∃ order,
                (runEvents (Host.reference []) forgedFirst genesisNode).blockBuffer.lookup
                    block.number.toNat
                  = some (block, order))
      ∧ ∀ count ≤ 2,
          (∀ block ∈ [firstBlock, secondBlock].take count, Delivered forgedFirst block)
          → genesisNode.blockNumber.toNat + count
            ≤ (runEvents (Host.reference []) forgedFirst
                genesisNode).chain.blockNumber.toNat :=
  delivered_applied genesisNode_extends (by decide) undisturbed_forgedFirst

end NetworkHandler

end VeloChain
