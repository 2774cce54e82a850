import VeloChain.Lib.CallTrace
import VeloChain.Lib.NumberMap
import VeloChain.Node.Growth

/-! The network event handler of a running node, with its block buffering for chain sync.
A block that comes too early is buffered under its number before anything of it is checked.
Block numbers are naturals here; the number after the greatest one is zero.
-/

namespace VeloChain

/-- Events emitted by the network to the node. A received block comes with the order in which
its application will walk over hash maps.
-/
inductive NetworkEvent (F : Type)
  | blockReceived (block : Block) (order : BlockOrder F)
  | blockResponseReceived (block : Block) (order : BlockOrder F)
  | blockRequested (number : UInt64)
  | transactionReceived (tx : SignedTransaction)
  | peerConnected (peerId : String)
  | peerDisconnected (peerId : String)
  | headersReceived (headers : List BlockHeader)
  | bodiesReceived (bodies : List BlockBody)
  | peerStatus (peerId : String) (bestBlock : UInt64)

/-- What the handler asks the network service to send. That sending fails is only logged. -/
inductive NetworkCommand
  | requestBlock (number : Nat)
  | sendBlockResponse (block : Block)

/-- A received block, announced or asked for, with the order of its application. -/
def NetworkEvent.received {F : Type} : NetworkEvent F → Option (Block × BlockOrder F)
  | .blockReceived block order | .blockResponseReceived block order => some (block, order)
  | _ => none

/-- The chain, the out-of-order blocks by number, and the numbers of the blocks that were
requested already.
-/
structure NetworkHandler (F : Type) where
  chain : Chain F
  blockBuffer : FinMap Nat (Block × BlockOrder F)
  requestedBlocks : Finset Nat

namespace NetworkHandler

variable {F : Type} [F32 F] (host : Host F)

/-- A handler as the node spawns it. -/
def new (chain : Chain F) : NetworkHandler F :=
  { chain, blockBuffer := ∅, requestedBlocks := ∅ }

/-- The number of the block that can be applied next. -/
def expected (handler : NetworkHandler F) : Nat := (handler.chain.blockNumber + 1).toNat

/-- Try to apply buffered blocks sequentially. Every round removes a block from the buffer, so
there are at most as many rounds as blocks in it.
-/
def applyBuffered : Nat → NetworkHandler F → NetworkHandler F
  | 0, handler => handler
  | rounds + 1, handler =>
      let next := handler.expected
      match handler.blockBuffer.lookup next with
      | none => handler
      | some buffered =>
          -- the block is gone from the buffer whether it can be applied or not
          let blockBuffer := handler.blockBuffer.erase next
          match Chain.importBlock host buffered handler.chain with
          | (.ok (), chain) =>
              applyBuffered rounds
                { chain, blockBuffer, requestedBlocks := handler.requestedBlocks.erase next }
          | (.error _, chain) => { handler with chain, blockBuffer }

/-- Request missing blocks from peers, each of them once. -/
def requestMissing : List Nat → NetworkHandler F → List NetworkCommand × NetworkHandler F
  | [], handler => ([], handler)
  | missing :: rest, handler =>
      if missing ∉ handler.requestedBlocks ∧ (handler.blockBuffer.lookup missing).isNone then
        let (commands, handler) :=
          requestMissing rest
            { handler with requestedBlocks := insert missing handler.requestedBlocks }
        (.requestBlock missing :: commands, handler)
      else requestMissing rest handler

/-- Limit the buffer size; what goes first is the block with the lowest number. -/
def limitBuffer (handler : NetworkHandler F) : NetworkHandler F :=
  { handler with blockBuffer := handler.blockBuffer.popDownTo 1000 }

/-- Apply, buffer or skip a received block. -/
def onBlock (block : Block) (order : BlockOrder F) (handler : NetworkHandler F)
    : List NetworkCommand × NetworkHandler F :=
  let number := block.number.toNat
  let expected := handler.expected
  if number < expected then ([], handler)
  else if number = expected then
    match handler.chain.applyBlock host order block with
    | (.ok (), chain) =>
        let handler :=
          { handler with chain, requestedBlocks := handler.requestedBlocks.erase number }
        ([], (handler.applyBuffered host handler.blockBuffer.keys.card).limitBuffer)
    | (.error _, chain) => ([], { handler with chain }.limitBuffer)
  else
    let handler :=
      { handler with blockBuffer := handler.blockBuffer.insert number (block, order) }
    let (commands, handler) := handler.requestMissing (List.range' expected (number - expected))
    (commands, handler.limitBuffer)

/-- Handle one event of the network. -/
def onEvent (event : NetworkEvent F) (handler : NetworkHandler F)
    : List NetworkCommand × NetworkHandler F :=
  match event with
  | .blockReceived block order | .blockResponseReceived block order =>
      handler.onBlock host block order
  | .blockRequested number =>
      match handler.chain.getBlockByNumber host number with
      | .ok (some block) => ([.sendBlockResponse block], handler)
      | .ok none => ([], handler)
      | .error _ => ([], handler)
  | .transactionReceived tx =>
      let txpool := (handler.chain.txpool.addTransaction host.crypto tx).2
      ([], { handler with chain := { handler.chain with txpool } })
  | .peerConnected _ | .peerDisconnected _ | .headersReceived _ | .bodiesReceived _
  | .peerStatus _ _ => ([], handler)

/-- One turn of the event loop. -/
def handle (event : NetworkEvent F) (handler : NetworkHandler F)
    : Option (List NetworkCommand × NetworkHandler F) :=
  some (handler.onEvent host event)

-----------------------------------------------------------------------------------------
-- What a turn of the event loop does
-----------------------------------------------------------------------------------------

variable {host}

omit [F32 F] in
theorem card_limitBuffer_le (handler : NetworkHandler F)
    : handler.limitBuffer.blockBuffer.keys.card ≤ 1000 := by
  simp only [limitBuffer]
  exact FinMap.card_popDownTo_le 1000 handler.blockBuffer

omit [F32 F] in
theorem lookup_limitBuffer_some {handler : NetworkHandler F} {number : Nat}
    {entry : Block × BlockOrder F}
    (kept : handler.limitBuffer.blockBuffer.lookup number = some entry)
    : handler.blockBuffer.lookup number = some entry := by
  simp only [limitBuffer] at kept
  exact FinMap.lookup_popDownTo_some kept

omit [F32 F] in
theorem limitBuffer_of_card_le {handler : NetworkHandler F}
    (fits : handler.blockBuffer.keys.card ≤ 1000)
    : handler.limitBuffer = handler := by
  rw [limitBuffer, FinMap.popDownTo_of_card_le fits]

theorem applyBuffered_of_none (rounds : Nat) {handler : NetworkHandler F}
    (absent : handler.blockBuffer.lookup handler.expected = none)
    : handler.applyBuffered host rounds = handler := by
  cases rounds with
  | zero => rfl
  | succ rounds => simp only [applyBuffered, absent]

theorem applyBuffered_of_applied {rounds : Nat} {handler : NetworkHandler F}
    {buffered : Block × BlockOrder F} {chain : Chain F}
    (found : handler.blockBuffer.lookup handler.expected = some buffered)
    (applied : handler.chain.applyBlock host buffered.2 buffered.1 = (.ok (), chain))
    : handler.applyBuffered host (rounds + 1)
      = ({ chain
           blockBuffer := handler.blockBuffer.erase handler.expected
           requestedBlocks := handler.requestedBlocks.erase handler.expected }
          : NetworkHandler F).applyBuffered host rounds := by
  simp only [applyBuffered, found, Chain.importBlock, applied]

theorem applyBuffered_of_failed {rounds : Nat} {handler : NetworkHandler F}
    {buffered : Block × BlockOrder F} {e : NodeError} {chain : Chain F}
    (found : handler.blockBuffer.lookup handler.expected = some buffered)
    (failed : handler.chain.applyBlock host buffered.2 buffered.1 = (.error e, chain))
    : handler.applyBuffered host (rounds + 1)
      = { handler with chain, blockBuffer := handler.blockBuffer.erase handler.expected } := by
  simp only [applyBuffered, found, Chain.importBlock, failed]

omit [F32 F] in
/-- Requesting blocks changes only the record of requests. What it requests is missing, not
buffered and was not requested before; afterwards it is recorded.
-/
theorem requestMissing_spec (missing : List Nat) (handler : NetworkHandler F)
    : ∃ requestedBlocks,
        (handler.requestMissing missing).2 = { handler with requestedBlocks }
        ∧ (∀ number, number ∈ requestedBlocks
            ↔ number ∈ handler.requestedBlocks
              ∨ number ∈ missing ∧ handler.blockBuffer.lookup number = none)
        ∧ ∀ command ∈ (handler.requestMissing missing).1,
            ∃ number ∈ missing,
              command = .requestBlock number
              ∧ number ∉ handler.requestedBlocks
              ∧ handler.blockBuffer.lookup number = none := by
  induction missing generalizing handler with
  | nil => exact ⟨handler.requestedBlocks, rfl, by simp, by simp [requestMissing]⟩
  | cons first rest ih =>
      unfold requestMissing
      split
      next new =>
        obtain ⟨unrequested, unbuffered⟩ := new
        rw [Option.isNone_iff_eq_none] at unbuffered
        obtain ⟨requestedBlocks, frame, recorded, sent⟩ :=
          ih { handler with requestedBlocks := insert first handler.requestedBlocks }
        refine ⟨requestedBlocks, frame, ?_, ?_⟩
        · intro number
          rw [recorded, Finset.mem_insert, List.mem_cons]
          grind
        · intro command member
          rcases List.mem_cons.mp member with rfl | later
          · exact ⟨first, List.mem_cons_self, rfl, unrequested, unbuffered⟩
          · obtain ⟨number, isMissing, same, other, free⟩ := sent command later
            exact ⟨number, List.mem_cons_of_mem _ isMissing, same,
              fun requested => other (Finset.mem_insert_of_mem requested), free⟩
      next old =>
        obtain ⟨requestedBlocks, frame, recorded, sent⟩ := ih handler
        refine ⟨requestedBlocks, frame, ?_, ?_⟩
        · intro number
          rw [recorded, List.mem_cons]
          rw [Option.isNone_iff_eq_none] at old
          grind
        · intro command member
          obtain ⟨number, isMissing, rest⟩ := sent command member
          exact ⟨number, List.mem_cons_of_mem _ isMissing, rest⟩

/-- A block that was applied already is skipped. -/
theorem onBlock_of_lt {block : Block} {order : BlockOrder F} {handler : NetworkHandler F}
    (old : block.number.toNat < handler.expected)
    : handler.onBlock host block order = ([], handler) := by
  unfold onBlock
  simp only [old, if_true]

/-- The expected block is applied, and the buffered ones after it. -/
theorem onBlock_of_applied {block : Block} {order : BlockOrder F}
    {handler : NetworkHandler F} (isNext : block.number.toNat = handler.expected)
    {chain : Chain F} (applied : handler.chain.applyBlock host order block = (.ok (), chain))
    : handler.onBlock host block order
      = ([],
          (({ handler with
              chain
              requestedBlocks := handler.requestedBlocks.erase block.number.toNat }
              : NetworkHandler F).applyBuffered host
                handler.blockBuffer.keys.card).limitBuffer) := by
  unfold onBlock
  simp only [isNext, Nat.lt_irrefl, if_false, if_true, applied]

/-- Where the block after the applied one is not in the buffer, the buffer stays as it is. -/
theorem onBlock_of_applied_alone {block : Block} {order : BlockOrder F}
    {handler : NetworkHandler F} (isNext : block.number.toNat = handler.expected)
    {chain : Chain F} (applied : handler.chain.applyBlock host order block = (.ok (), chain))
    (absent : handler.blockBuffer.lookup (chain.blockNumber + 1).toNat = none)
    (limited : handler.blockBuffer.keys.card ≤ 1000)
    : handler.onBlock host block order
      = ([],
          { handler with
            chain
            requestedBlocks := handler.requestedBlocks.erase block.number.toNat }) := by
  have alone := @applyBuffered_of_none F _ host handler.blockBuffer.keys.card
    { handler with
      chain
      requestedBlocks := handler.requestedBlocks.erase block.number.toNat } absent
  rw [onBlock_of_applied isNext applied, alone]
  exact congrArg (Prod.mk []) (limitBuffer_of_card_le limited)

/-- A block at the expected number that cannot be applied is dropped. -/
theorem onBlock_of_failed {block : Block} {order : BlockOrder F}
    {handler : NetworkHandler F} (isNext : block.number.toNat = handler.expected)
    {e : NodeError} {chain : Chain F}
    (failed : handler.chain.applyBlock host order block = (.error e, chain))
    : handler.onBlock host block order
      = ([], { handler with chain }.limitBuffer) := by
  unfold onBlock
  simp only [isNext, Nat.lt_irrefl, if_false, if_true, failed]

/-- A block from further ahead is buffered. The blocks before it are requested, unless they are
buffered or were requested already.
-/
theorem onBlock_of_gt {block : Block} {order : BlockOrder F} {handler : NetworkHandler F}
    (early : handler.expected < block.number.toNat)
    : ∃ commands requestedBlocks,
        handler.onBlock host block order
          = (commands,
              ({ handler with
                  blockBuffer :=
                    handler.blockBuffer.insert block.number.toNat (block, order)
                  requestedBlocks } : NetworkHandler F).limitBuffer)
        ∧ (∀ number, number ∈ requestedBlocks
            ↔ number ∈ handler.requestedBlocks
              ∨ (handler.expected ≤ number ∧ number < block.number.toNat)
                ∧ handler.blockBuffer.lookup number = none)
        ∧ ∀ command ∈ commands,
            ∃ number,
              command = .requestBlock number
              ∧ handler.expected ≤ number
              ∧ number < block.number.toNat
              ∧ number ∉ handler.requestedBlocks
              ∧ handler.blockBuffer.lookup number = none := by
  have isMissing
      : ∀ number, number ∈ List.range' handler.expected (block.number.toNat - handler.expected)
          ↔ handler.expected ≤ number ∧ number < block.number.toNat := by
    intro number
    rw [List.mem_range'_1, Nat.add_sub_cancel' (Nat.le_of_lt early)]
  have below
      : ∀ number, number < block.number.toNat
          → (handler.blockBuffer.insert block.number.toNat (block, order)).lookup number
            = handler.blockBuffer.lookup number :=
    fun number lt => Finmap.lookup_insert_of_ne _ (Nat.ne_of_lt lt)
  have spec := @requestMissing_spec F
    (List.range' handler.expected (block.number.toNat - handler.expected))
    { handler with
      blockBuffer := handler.blockBuffer.insert block.number.toNat (block, order) }
  rcases asked
      : ({ handler with
            blockBuffer := handler.blockBuffer.insert block.number.toNat (block, order) }
          : NetworkHandler F).requestMissing
            (List.range' handler.expected (block.number.toNat - handler.expected))
    with ⟨commands, after⟩
  rw [asked] at spec
  obtain ⟨requestedBlocks, frame, recorded, sent⟩ := spec
  refine ⟨commands, requestedBlocks, ?_, ?_, ?_⟩
  · unfold onBlock
    simp only [Nat.not_lt.mpr (Nat.le_of_lt early), Nat.ne_of_gt early, if_false, asked]
    rw [show after = _ from frame]
  · intro number
    rw [recorded, isMissing]
    grind
  · intro command member
    obtain ⟨number, inRange, same, unrequested, free⟩ := sent command member
    obtain ⟨above, lt⟩ := (isMissing number).mp inRange
    exact ⟨number, same, above, lt, unrequested, (below number lt).symm.trans free⟩

/-- An event without a block leaves the buffer, the record of requests and all of the chain but
the pool, and requests nothing.
-/
theorem onEvent_of_no_block {event : NetworkEvent F} (none : event.received = none)
    (handler : NetworkHandler F)
    : (∃ txpool,
        (handler.onEvent host event).2
          = { handler with chain := { handler.chain with txpool } })
      ∧ ∀ number, .requestBlock number ∉ (handler.onEvent host event).1 := by
  unfold onEvent
  split
  next => simp [NetworkEvent.received] at none
  next => simp [NetworkEvent.received] at none
  next number => split <;> exact ⟨⟨handler.chain.txpool, rfl⟩, by simp⟩
  next => exact ⟨⟨_, rfl⟩, by simp⟩
  all_goals exact ⟨⟨handler.chain.txpool, rfl⟩, by simp⟩

/-- An event with a block is handled by its block alone. -/
theorem onEvent_of_block {event : NetworkEvent F} {block : Block} {order : BlockOrder F}
    (received : event.received = some (block, order)) (handler : NetworkHandler F)
    : handler.onEvent host event = handler.onBlock host block order := by
  cases event <;>
    simp only [NetworkEvent.received, Option.some.injEq, Prod.mk.injEq, reduceCtorEq] at received
  all_goals
    obtain ⟨rfl, rfl⟩ := received
    rfl

end NetworkHandler

end VeloChain
