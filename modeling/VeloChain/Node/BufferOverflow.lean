import VeloChain.Node.BlockBuffering

/-! How far a node can catch up through its block buffer.
The buffer holds a thousand blocks. One more, and the block that is needed soonest is removed;
it was received already and counts as neither missing nor requested, so nobody asks for it.
-/

namespace VeloChain.NetworkHandler

open Chain

variable {F : Type} [F32 F]

/-- Blocks of the chain, and no others, are received, each of them at least once. -/
structure Arrive (blocks : List Block) (events : List (NetworkEvent F)) : Prop where
  only : ∀ block, Delivered events block → block ∈ blocks
  all : ∀ block ∈ blocks, Delivered events block

/-- Every block that the node requests is received after the request. -/
def Answered (host : Host F) (start : Chain F) (events : List (NetworkEvent F)) : Prop :=
  ∀ earlier event later, events = earlier ++ event :: later →
    ∀ number, .requestBlock number ∈ ((runEvents host earlier start).onEvent host event).1
      → ∃ block, Delivered later block ∧ block.number.toNat = number

/-- The buffer has room for the block that the event brings. -/
def HasRoom (event : NetworkEvent F) (handler : NetworkHandler F) : Prop :=
  ∀ block order, event.received = some (block, order)
    → handler.expected < block.number.toNat
    → (handler.blockBuffer.insert block.number.toNat (block, order)).keys.card ≤ 1000

variable {host : Host F} {start : Chain F} {blocks : List Block}
  {events : List (NetworkEvent F)}

-----------------------------------------------------------------------------------------
-- With room in the buffer
-----------------------------------------------------------------------------------------

omit [F32 F] in
/-- Where only blocks of the chain are received and the buffer has room for them, nothing is
lost.
-/
theorem undisturbed_of_hasRoom (only : ∀ block, Delivered events block → block ∈ blocks)
    {event : NetworkEvent F} (isEvent : event ∈ events) {handler : NetworkHandler F}
    (room
      : handler.chain.blockNumber.toNat < start.blockNumber.toNat + blocks.length
          → HasRoom event handler)
    : Undisturbed host start blocks event handler := by
  have genuine
      : ∀ block order, event.received = some (block, order) → block ∈ blocks :=
    fun block order received => only block ⟨event, isEvent, order, received⟩
  refine ⟨fun block order received => Or.inl (genuine block order received), ?_⟩
  intro more block order received
  refine ⟨fun other => absurd (genuine block order received) other, ?_⟩
  intro early full
  have fits := room more block order received early
  rw [full] at fits
  exact absurd fits (by decide)

/-- A node that received all blocks of the chain has the last of them as its head. -/
theorem blockNumber_of_arrive (valid : start.Extends host blocks)
    (small : start.blockNumber.toNat + blocks.length < 2 ^ 64)
    (arrive : Arrive blocks events)
    (room
      : ∀ turn ∈ turns host events start, ∀ arrived count,
          (∀ block, arrived block → Delivered events block)
          → Settled host start blocks arrived count turn.before
          → turn.before.chain.blockNumber.toNat < start.blockNumber.toNat + blocks.length
          → HasRoom turn.op turn.before)
    : (runEvents host events start).chain.blockNumber.toNat
      = start.blockNumber.toNat + blocks.length := by
  have undisturbed
      : ∀ turn ∈ turns host events start, ∀ arrived count,
          (∀ block, arrived block → Delivered events block)
          → Settled host start blocks arrived count turn.before
          → Undisturbed host start blocks turn.op turn.before := by
    intro turn member arrived count came settled
    exact undisturbed_of_hasRoom arrive.only (op_mem_events member)
      (room turn member arrived count came settled)
  obtain ⟨count, settled⟩ := settled_runEvents valid small undisturbed
  have all := settled.le_count valid small (Nat.le_refl _)
    (fun block member => arrive.all block (List.mem_of_mem_take member))
  rw [settled.reached.number, Nat.le_antisymm settled.reached.le all]

/-- A buffer of blocks between the head and the end of the chain has at most as many of them as
there are numbers.
-/
theorem hasRoom_of_short (valid : start.Extends host blocks)
    (small : start.blockNumber.toNat + blocks.length < 2 ^ 64) (short : blocks.length ≤ 1001)
    {arrived : Block → Prop} (only : ∀ block, arrived block → block ∈ blocks)
    {count : Nat} {handler : NetworkHandler F}
    (settled : Settled host start blocks arrived count handler) (more : count < blocks.length)
    {event : NetworkEvent F}
    (genuine : ∀ block order, event.received = some (block, order) → block ∈ blocks)
    : HasRoom event handler := by
  intro block order received early
  have next := settled.expected_eq small more
  obtain ⟨i, _, lt, number⟩ := position valid small (genuine block order received)
  have few
      : (handler.blockBuffer.insert block.number.toNat (block, order)).keys.card
        ≤ blocks.length - count - 1 := by
    apply @FinMap.card_le_of_range _ _ (start.blockNumber.toNat + count + 2)
    intro key isKey
    rcases Finmap.mem_insert.mp isKey with rfl | buffered
    · omega
    · obtain ⟨entry, found⟩ := Finmap.mem_iff.mp buffered
      obtain ⟨isNumber, came, _⟩ := settled.filed key entry found
      obtain ⟨j, _, below, place⟩ := position valid small (only _ came)
      have above := settled.ahead more key entry found
      have other : key ≠ start.blockNumber.toNat + count + 1 := by
        rintro rfl
        simp [settled.cleared more] at found
      omega
  omega

-----------------------------------------------------------------------------------------
-- With one block too many
-----------------------------------------------------------------------------------------

/-- All blocks of the chain in order, but without the one at the place `missing`. -/
def withoutOne (blocks : List Block) (missing : Nat) : List Block :=
  blocks.take missing ++ blocks.drop (missing + 1)

/-- The node received `count` blocks in order, without the one at the place `missing`. All
blocks after that one are in the buffer.
-/
structure Backlog (host : Host F) (start : Chain F) (blocks : List Block) (missing count : Nat)
    (handler : NetworkHandler F) : Prop where
  reached : Reached host start blocks (min count missing) handler.chain
  buffered
    : ∀ key, key ∈ handler.blockBuffer
        ↔ start.blockNumber.toNat + missing + 2 ≤ key
          ∧ key < start.blockNumber.toNat + missing + 2 + (count - missing)

/-- No other block than the one with the given number is requested. -/
def RequestsOnly (number : Nat) (commands : List NetworkCommand) : Prop :=
  ∀ other, .requestBlock other ∈ commands → other = number

section Backlog

variable {missing count : Nat} {handler : NetworkHandler F} {block : Block}

theorem getElem?_withoutOne (lt : missing < blocks.length) (place : Nat)
    : (withoutOne blocks missing)[place]?
      = if place < missing then blocks[place]? else blocks[place + 1]? := by
  unfold withoutOne
  rw [List.getElem?_append, List.length_take_of_le (Nat.le_of_lt lt)]
  split
  next before => rw [List.getElem?_take_of_lt before]
  next after =>
    rw [List.getElem?_drop]
    congr 1
    omega

theorem length_withoutOne (lt : missing < blocks.length)
    : (withoutOne blocks missing).length + 1 = blocks.length := by
  unfold withoutOne
  rw [List.length_append, List.length_take_of_le (Nat.le_of_lt lt), List.length_drop]
  omega

theorem Backlog.new (valid : start.Extends host blocks)
    : Backlog host start blocks missing 0 (.new start) := by
  refine ⟨by rw [Nat.zero_min]; exact .zero valid, ?_⟩
  intro key
  have absent : key ∉ (∅ : FinMap Nat (Block × BlockOrder F)) := Finmap.notMem_empty
  constructor
  · exact fun member => absurd member absent
  · omega

/-- The blocks before the missing one are applied at once. -/
theorem Backlog.onNext (backlog : Backlog host start blocks missing count handler)
    (small : start.blockNumber.toNat + blocks.length < 2 ^ 64) (before : count < missing)
    (isBlock : blocks[count]? = some block) (order : BlockOrder F)
    : (handler.onBlock host block order).1 = []
      ∧ Backlog host start blocks missing (count + 1) (handler.onBlock host block order).2 := by
  have reached := backlog.reached
  rw [Nat.min_eq_left (Nat.le_of_lt before)] at reached
  obtain ⟨lt, _⟩ := List.getElem?_eq_some_iff.mp isBlock
  obtain ⟨chain, applied, number, later⟩ := reached.next small isBlock order
  have isNext : block.number.toNat = handler.expected := by
    rw [expected, UInt64.toNat_add, UInt64.toNat_one, reached.number]
    omega
  have empty : ∀ key, handler.blockBuffer.lookup key = none := by
    intro key
    rw [Finmap.lookup_eq_none, backlog.buffered]
    omega
  have limited : handler.blockBuffer.keys.card ≤ 1000 := by
    rw [FinMap.card_eq_zero_iff.mpr empty]
    exact Nat.zero_le _
  rw [onBlock_of_applied_alone isNext applied (empty _) limited]
  refine ⟨rfl, by rwa [Nat.min_eq_left before], ?_⟩
  intro key
  rw [show _ ↔ _ from backlog.buffered key]
  omega

/-- The blocks after the missing one are buffered. Only the missing one is requested. -/
theorem Backlog.onEarly (backlog : Backlog host start blocks missing count handler)
    (valid : start.Extends host blocks)
    (small : start.blockNumber.toNat + blocks.length < 2 ^ 64) (after : missing ≤ count)
    (isBlock : blocks[count + 1]? = some block) (order : BlockOrder F)
    : RequestsOnly (start.blockNumber.toNat + missing + 1)
        (handler.onBlock host block order).1
      ∧ ∃ requestedBlocks,
          (handler.onBlock host block order).2
            = ({ handler with
                  blockBuffer :=
                    handler.blockBuffer.insert block.number.toNat (block, order)
                  requestedBlocks } : NetworkHandler F).limitBuffer
          ∧ ∀ key,
              key ∈ handler.blockBuffer.insert block.number.toNat (block, order)
              ↔ start.blockNumber.toNat + missing + 2 ≤ key
                ∧ key < start.blockNumber.toNat + missing + 2 + (count + 1 - missing) := by
  have reached := backlog.reached
  rw [Nat.min_eq_right after] at reached
  obtain ⟨lt, _⟩ := List.getElem?_eq_some_iff.mp isBlock
  have number := valid.numbered small isBlock
  have next : handler.expected = start.blockNumber.toNat + missing + 1 := by
    rw [expected, UInt64.toNat_add, UInt64.toNat_one, reached.number]
    omega
  have early : handler.expected < block.number.toNat := by omega
  obtain ⟨commands, requestedBlocks, turn, _, sent⟩ := @onBlock_of_gt F _ host _ order _ early
  rw [turn]
  refine ⟨?_, requestedBlocks, rfl, ?_⟩
  · intro other asked
    obtain ⟨asks, same, above, below, _, unbuffered⟩ := sent _ asked
    obtain rfl := NetworkCommand.requestBlock.inj same
    rw [Finmap.lookup_eq_none, backlog.buffered] at unbuffered
    omega
  · intro key
    rw [Finmap.mem_insert, backlog.buffered]
    omega

/-- One more block is received, and the buffer has room for it. -/
theorem Backlog.step (backlog : Backlog host start blocks missing count handler)
    (valid : start.Extends host blocks)
    (small : start.blockNumber.toNat + blocks.length < 2 ^ 64)
    (lt : missing < blocks.length) (fits : count < missing + 1000)
    (isBlock : (withoutOne blocks missing)[count]? = some block) (order : BlockOrder F)
    : RequestsOnly (start.blockNumber.toNat + missing + 1)
        (handler.onBlock host block order).1
      ∧ Backlog host start blocks missing (count + 1) (handler.onBlock host block order).2 := by
  rw [getElem?_withoutOne lt] at isBlock
  split at isBlock
  next before =>
    obtain ⟨silent, later⟩ := backlog.onNext small before isBlock order
    refine ⟨?_, later⟩
    intro other asked
    simp [silent] at asked
  next after =>
    obtain ⟨asks, requestedBlocks, turn, keys⟩ :=
      backlog.onEarly valid small (Nat.not_lt.mp after) isBlock order
    have limited
        : (handler.blockBuffer.insert block.number.toNat (block, order)).keys.card ≤ 1000 := by
      rw [FinMap.card_eq_of_range keys]
      omega
    refine ⟨asks, ?_⟩
    rw [turn, limitBuffer_of_card_le limited]
    refine ⟨?_, keys⟩
    have reached := backlog.reached
    rw [Nat.min_eq_right (Nat.not_lt.mp after)] at reached
    rwa [Nat.min_eq_right (by omega)]

/-- The blocks in order, without the missing one, pile up, by induction on how many came. -/
theorem backlog_while_waiting (valid : start.Extends host blocks)
    (small : start.blockNumber.toNat + blocks.length < 2 ^ 64) (lt : missing < blocks.length)
    (order : BlockOrder F) {past future : List Block}
    (split : withoutOne blocks missing = past ++ future) (fits : past.length ≤ missing + 1000)
    : Backlog host start blocks missing past.length
        (runEvents host (announce order past) start) := by
  induction past using List.reverseRecOn generalizing future with
  | nil => exact .new valid
  | append_singleton past block ih =>
      rw [List.length_append, List.length_singleton] at fits ⊢
      rw [List.append_assoc] at split
      have backlog := ih split (Nat.le_of_succ_le fits)
      have isBlock : (withoutOne blocks missing)[past.length]? = some block := by
        rw [split]
        simp
      rw [runEvents_announce_concat]
      exact (backlog.step valid small lt fits isBlock order).2

/-- One block too many, and the one after the missing block is removed. -/
theorem Backlog.onOverflow
    (backlog : Backlog host start blocks missing (missing + 1000) handler)
    (valid : start.Extends host blocks)
    (small : start.blockNumber.toNat + blocks.length < 2 ^ 64)
    (isBlock : blocks[missing + 1001]? = some block) (order : BlockOrder F)
    : RequestsOnly (start.blockNumber.toNat + missing + 1)
        (handler.onBlock host block order).1
      ∧ Reached host start blocks missing (handler.onBlock host block order).2.chain
      ∧ (handler.onBlock host block order).2.blockBuffer.lookup
          (start.blockNumber.toNat + missing + 2) = none
      ∧ (handler.onBlock host block order).2.blockBuffer.keys.card ≤ 1000 := by
  obtain ⟨asks, requestedBlocks, turn, keys⟩ :=
    backlog.onEarly valid small (Nat.le_add_right _ _) isBlock order
  have reached := backlog.reached
  rw [Nat.min_eq_right (Nat.le_add_right _ _)] at reached
  have full
      : (handler.blockBuffer.insert block.number.toNat (block, order)).keys.card
        = 1000 + 1 := by
    rw [FinMap.card_eq_of_range keys]
    omega
  have lowest
      : FinMap.popDownTo 1000 (handler.blockBuffer.insert block.number.toNat (block, order))
        = (handler.blockBuffer.insert block.number.toNat (block, order)).erase
            (start.blockNumber.toNat + missing + 2) := by
    rw [FinMap.popDownTo_of_card_eq_succ full]
    apply FinMap.popFirst_eq_erase
    · rw [keys]
      omega
    · exact fun key isKey => ((keys key).mp isKey).1
  refine ⟨asks, ?_⟩
  rw [turn]
  refine ⟨reached, ?_, card_limitBuffer_le _⟩
  simp only [limitBuffer, lowest, Finmap.lookup_erase]

/-- After the missing block is applied, the next one is not in the buffer. -/
theorem stuck_of_missing (small : start.blockNumber.toNat + blocks.length < 2 ^ 64)
    (reached : Reached host start blocks missing handler.chain)
    (absent : handler.blockBuffer.lookup (start.blockNumber.toNat + missing + 2) = none)
    (limited : handler.blockBuffer.keys.card ≤ 1000) (more : missing + 1 < blocks.length)
    (isBlock : blocks[missing]? = some block) (order : BlockOrder F)
    : (handler.onBlock host block order).1 = []
      ∧ (handler.onBlock host block order).2.chain.blockNumber.toNat
        = start.blockNumber.toNat + missing + 1 := by
  obtain ⟨chain, applied, number, later⟩ := reached.next small isBlock order
  have isNext : block.number.toNat = handler.expected := by
    rw [expected, UInt64.toNat_add, UInt64.toNat_one, reached.number]
    omega
  have next : (chain.blockNumber + 1).toNat = start.blockNumber.toNat + missing + 2 := by
    rw [UInt64.toNat_add, UInt64.toNat_one, later.number]
    omega
  rw [onBlock_of_applied_alone isNext applied (next ▸ absent) limited]
  exact ⟨rfl, later.number⟩

/-- Whatever is requested while the blocks pile up, it is the missing one. -/
theorem requestsOnly_while_waiting (valid : start.Extends host blocks)
    (small : start.blockNumber.toNat + blocks.length < 2 ^ 64)
    (long : missing + 1002 = blocks.length) (order : BlockOrder F) {past future : List Block}
    (split : withoutOne blocks missing = past ++ block :: future)
    : RequestsOnly (start.blockNumber.toNat + missing + 1)
        ((runEvents host (announce order past) start).onBlock host block order).1 := by
  have lt : missing < blocks.length := by omega
  have isBlock : (withoutOne blocks missing)[past.length]? = some block := by
    rw [split]
    simp
  have many := length_withoutOne lt
  rw [split, List.length_append, List.length_cons] at many
  have backlog := backlog_while_waiting valid small lt order split (by omega)
  rcases Nat.lt_or_ge past.length (missing + 1000) with fits | full
  · exact (backlog.step valid small lt fits isBlock order).1
  · obtain same : past.length = missing + 1000 := by omega
    rw [getElem?_withoutOne lt, if_neg (by omega), same] at isBlock
    rw [same] at backlog
    exact (backlog.onOverflow valid small isBlock order).1

end Backlog

/-- The blocks in order, but with the one at the place `missing` held back to the end. -/
def heldBack (order : BlockOrder F) (blocks : List Block) (missing : Nat)
    : List (NetworkEvent F) :=
  announce order (withoutOne blocks missing ++ blocks[missing]?.toList)

section HeldBack

variable {missing : Nat}

/-- The block that is needed next was removed, and the missing one changes nothing about it. -/
theorem blockNumber_heldBack (valid : start.Extends host blocks)
    (small : start.blockNumber.toNat + blocks.length < 2 ^ 64)
    (long : missing + 1002 = blocks.length) (order : BlockOrder F) {block : Block}
    (isMissing : blocks[missing]? = some block)
    : ((runEvents host (announce order (withoutOne blocks missing)) start).onBlock host block
          order).1
        = []
      ∧ (runEvents host (heldBack order blocks missing) start).chain.blockNumber.toNat
        = start.blockNumber.toNat + missing + 1 := by
  have lt : missing < blocks.length := by omega
  have many := length_withoutOne lt
  rcases List.eq_nil_or_concat (withoutOne blocks missing) with none | ⟨fitting, last, split⟩
  · rw [none, List.length_nil] at many
    omega
  · rw [List.concat_eq_append] at split
    rw [split, List.length_append, List.length_singleton] at many
    have backlog := backlog_while_waiting valid small lt order split (by omega)
    rw [show fitting.length = missing + 1000 by omega] at backlog
    have isLast : blocks[missing + 1001]? = some last := by
      have place := getElem?_withoutOne lt (missing + 1000)
      rw [if_neg (by omega), split, ← show fitting.length = missing + 1000 by omega] at place
      rw [show missing + 1001 = fitting.length + 1 by omega, ← place]
      simp
    obtain ⟨_, reached, absent, limited⟩ :=
      backlog.onOverflow valid small isLast order
    rw [← runEvents_announce_concat, ← split] at reached absent limited
    have stuck := stuck_of_missing small reached absent limited (by omega) isMissing order
    refine ⟨stuck.1, ?_⟩
    rw [heldBack, isMissing, Option.toList_some, runEvents_announce_concat]
    exact stuck.2

/-- The missing block is the only one that is requested, and it comes last. -/
theorem answered_heldBack (valid : start.Extends host blocks)
    (small : start.blockNumber.toNat + blocks.length < 2 ^ 64)
    (long : missing + 1002 = blocks.length) (order : BlockOrder F)
    : Answered host start (heldBack order blocks missing) := by
  have lt : missing < blocks.length := by omega
  have isMissing : blocks[missing]? = some blocks[missing] := List.getElem?_eq_getElem lt
  have number := valid.numbered small isMissing
  intro earlier event later split other asked
  unfold heldBack at split
  rw [isMissing, Option.toList_some] at split
  obtain ⟨past, rest, parts, rfl, isRest⟩ := List.map_eq_append_iff.mp split
  obtain ⟨block, future, rfl, rfl, rfl⟩ := List.map_eq_cons_iff.mp isRest
  rcases List.eq_nil_or_concat future with rfl | ⟨middle, last, rfl⟩
  · obtain ⟨rfl, same⟩ := List.append_inj' parts rfl
    obtain rfl := List.singleton_inj.mp same
    have silent
        : ((runEvents host (announce order (withoutOne blocks missing)) start).onEvent host
            (.blockReceived blocks[missing] order)).1 = [] :=
      (blockNumber_heldBack valid small long order isMissing).1
    unfold announce at silent
    rw [silent] at asked
    simp at asked
  · rw [List.concat_eq_append, ← List.cons_append, ← List.append_assoc] at parts
    obtain ⟨before, same⟩ := List.append_inj' parts rfl
    obtain rfl := List.singleton_inj.mp same
    refine ⟨blocks[missing], ?_, ?_⟩
    · apply delivered_announce.mpr
      simp
    · rw [number]
      exact (requestsOnly_while_waiting valid small long order before other asked).symm

omit [F32 F] in
/-- All blocks are received, the missing one at the end. -/
theorem arrive_heldBack (lt : missing < blocks.length) (order : BlockOrder F)
    : Arrive blocks (heldBack order blocks missing) := by
  have same
      : ∀ block, block ∈ withoutOne blocks missing ++ blocks[missing]?.toList
          ↔ block ∈ blocks := by
    intro block
    have whole : blocks.take missing ++ blocks[missing] :: blocks.drop (missing + 1) = blocks := by
      rw [← List.drop_eq_getElem_cons lt, List.take_append_drop]
    have parts : block ∈ blocks ↔ block ∈ blocks.take missing ∨ block = blocks[missing]
        ∨ block ∈ blocks.drop (missing + 1) := by
      rw [← List.mem_cons, ← List.mem_append, whole]
    rw [parts, List.getElem?_eq_getElem lt, Option.toList_some, withoutOne, List.mem_append,
      List.mem_append, List.mem_singleton, or_assoc, @or_comm (block = blocks[missing])]
  exact ⟨fun block came => (same block).mp (delivered_announce.mp came),
    fun block member => delivered_announce.mpr ((same block).mpr member)⟩

end HeldBack

-----------------------------------------------------------------------------------------
-- How far the node gets
-----------------------------------------------------------------------------------------

/-- A node gets to the end of the chain in every run in which the buffer has room for each
received block. Over all orders in which the blocks can come, with every request answered, it
gets there exactly when the chain has at most a thousand and one blocks.
-/
theorem catchesUp_iff {host : Host F} {start : Chain F} {blocks : List Block}
    (valid : start.Extends host blocks)
    (small : start.blockNumber.toNat + blocks.length < 2 ^ 64)
    : (∀ events, Arrive blocks events
          → (∀ turn ∈ turns host events start,
              turn.before.chain.blockNumber.toNat < start.blockNumber.toNat + blocks.length
              → HasRoom turn.op turn.before)
          → (runEvents host events start).chain.blockNumber.toNat
            = start.blockNumber.toNat + blocks.length)
      ∧ ((∀ events, Arrive blocks events → Answered host start events
            → (runEvents host events start).chain.blockNumber.toNat
              = start.blockNumber.toNat + blocks.length)
          ↔ blocks.length ≤ 1001) := by
  refine ⟨?_, ?_, ?_⟩
  · intro events arrive room
    exact blockNumber_of_arrive valid small arrive
      (fun turn member _ _ _ _ more => room turn member more)
  · intro always
    by_contra long
    obtain ⟨missing, isLength⟩ : ∃ missing, missing + 1002 = blocks.length :=
      ⟨blocks.length - 1002, by omega⟩
    obtain ⟨order⟩ := @BlockOrder.nonempty F
    obtain ⟨block, isMissing⟩ : ∃ block, blocks[missing]? = some block :=
      ⟨_, List.getElem?_eq_getElem (by omega)⟩
    have reached := always _ (arrive_heldBack (by omega) order)
      (answered_heldBack valid small isLength order)
    have stuck := (blockNumber_heldBack valid small isLength order isMissing).2
    omega
  · intro short events arrive _
    apply blockNumber_of_arrive valid small arrive
    intro turn member arrived count came settled behind
    apply hasRoom_of_short valid small short (fun block got => arrive.only block (came block got))
      settled
    · rw [settled.reached.number] at behind
      omega
    · intro block order received
      apply arrive.only
      exact ⟨turn.op, op_mem_events member, order, received⟩

theorem length_emptyBlocks (count : Nat) (parent : BlockHeader)
    : (emptyBlocks count parent).length = count := by
  induction count generalizing parent with
  | zero => rfl
  | succ count ih => rw [emptyBlocks, List.length_cons, ih]

/-- A thousand and two empty blocks, with the first one coming last. -/
theorem catchesUp_fails
    : ¬ ∀ (host : Host Milli) (start : Chain Milli) (blocks : List Block)
          (events : List (NetworkEvent Milli)),
        start.Extends host blocks
        → start.blockNumber.toNat + blocks.length < 2 ^ 64
        → Arrive blocks events
        → Answered host start events
        → (runEvents host events start).chain.blockNumber.toNat
          = start.blockNumber.toNat + blocks.length := by
  intro claimed
  have valid
      : genesisNode.Extends (Host.reference []) (emptyBlocks 1002 (.genesis 0)) :=
    extends_emptyBlocks rfl (by decide)
  have length := length_emptyBlocks 1002 (.genesis 0)
  have small
      : genesisNode.blockNumber.toNat + (emptyBlocks 1002 (.genesis 0)).length < 2 ^ 64 := by
    rw [length]
    decide
  obtain ⟨block, isMissing⟩ : ∃ block, (emptyBlocks 1002 (.genesis 0))[0]? = some block :=
    ⟨_, List.getElem?_eq_getElem (by omega)⟩
  have reached := claimed (Host.reference []) genesisNode _ _ valid small
    (arrive_heldBack (by omega) (.ascending Milli))
    (answered_heldBack valid small length.symm (.ascending Milli))
  have stuck :=
    (blockNumber_heldBack valid small length.symm (.ascending Milli) isMissing).2
  omega

theorem catchesUp_iff_two
    : (∀ events, Arrive [firstBlock, secondBlock] events
          → (∀ turn ∈ turns (Host.reference []) events genesisNode,
              turn.before.chain.blockNumber.toNat < genesisNode.blockNumber.toNat + 2
              → HasRoom turn.op turn.before)
          → (runEvents (Host.reference []) events genesisNode).chain.blockNumber.toNat
            = genesisNode.blockNumber.toNat + 2)
      ∧ ((∀ events, Arrive [firstBlock, secondBlock] events
            → Answered (Host.reference []) genesisNode events
            → (runEvents (Host.reference []) events genesisNode).chain.blockNumber.toNat
              = genesisNode.blockNumber.toNat + 2)
          ↔ 2 ≤ 1001) :=
  catchesUp_iff genesisNode_extends (by decide)

end VeloChain.NetworkHandler
