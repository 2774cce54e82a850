import VeloChain.Node.BlockProducer
import VeloChain.Node.Reference
import VeloChain.TxPool.PendingOrder

/-! The gas a producer selects.
The running sum is a machine word, and the limits of the transactions are words as well, so a
sum that wraps around passes for one within the limit. The selection ends at the first
transaction that does not fit, so one that leads the list of the pool can keep all others out.
-/

namespace VeloChain

namespace Chain

/-- The gas of transactions in the selection, as a natural number. -/
def gasSum (txs : List SignedTransaction) : Nat :=
  (txs.map (fun tx => (selectionGas tx).toNat)).sum

theorem gasSum_cons (tx : SignedTransaction) (rest : List SignedTransaction)
    : gasSum (tx :: rest) = (selectionGas tx).toNat + gasSum rest := List.sum_cons

theorem gasSum_singleton (tx : SignedTransaction) : gasSum [tx] = (selectionGas tx).toNat :=
  List.sum_singleton

theorem gasSum_append (left right : List SignedTransaction)
    : gasSum (left ++ right) = gasSum left + gasSum right := by
  simp only [gasSum, List.map_append, List.sum_append]

theorem gasSum_le_of_leading {left right : List SignedTransaction} (leads : left <+: right)
    : gasSum left ≤ gasSum right := by
  obtain ⟨rest, rfl⟩ := leads
  rw [gasSum_append]
  exact Nat.le_add_right _ _

-----------------------------------------------------------------------------------------
-- The running sum
-----------------------------------------------------------------------------------------

section Selection

variable {gasLimit gasUsed : UInt64} {txs : List SignedTransaction}

/-- From `used` on, no transaction after leading ones within the limit takes the sum beyond a
word.
-/
def NoSumWraps (gasLimit : UInt64) (used : Nat) (txs : List SignedTransaction) : Prop :=
  ∀ earlier tx,
    earlier ++ [tx] <+: txs
    → used + gasSum earlier ≤ gasLimit.toNat
    → used + gasSum (earlier ++ [tx]) < 2 ^ 64

theorem NoSumWraps.head {used : Nat} {tx : SignedTransaction} {rest : List SignedTransaction}
    (fits : NoSumWraps gasLimit used (tx :: rest)) (within : used ≤ gasLimit.toNat)
    : used + (selectionGas tx).toNat < 2 ^ 64 := by
  have first := fits [] tx (List.cons_prefix_cons.mpr ⟨rfl, List.nil_prefix⟩) within
  rwa [List.nil_append, gasSum_singleton] at first

theorem NoSumWraps.tail {used : Nat} {tx : SignedTransaction} {rest : List SignedTransaction}
    (fits : NoSumWraps gasLimit used (tx :: rest))
    : NoSumWraps gasLimit (used + (selectionGas tx).toNat) rest := by
  intro earlier next leads within
  have later := fits (tx :: earlier) next (List.cons_prefix_cons.mpr ⟨rfl, leads⟩)
  rw [List.cons_append, gasSum_cons, gasSum_cons] at later
  omega

theorem toNat_add_selectionGas {tx : SignedTransaction}
    (fits : gasUsed.toNat + (selectionGas tx).toNat < 2 ^ 64)
    : (gasUsed + selectionGas tx).toNat = gasUsed.toNat + (selectionGas tx).toNat := by
  rw [UInt64.toNat_add, Nat.mod_eq_of_lt fits]

/-- Where no sum wraps, the counter is the sum of the selected gas and within the limit. -/
theorem selectTxs_exact (within : gasUsed ≤ gasLimit)
    (fits : NoSumWraps gasLimit gasUsed.toNat txs)
    : (selectTxs gasLimit gasUsed txs).2.toNat
        = gasUsed.toNat + gasSum (selectTxs gasLimit gasUsed txs).1
      ∧ (selectTxs gasLimit gasUsed txs).2 ≤ gasLimit := by
  induction txs generalizing gasUsed with
  | nil => exact ⟨rfl, within⟩
  | cons tx rest ih =>
      have sum := toNat_add_selectionGas (fits.head (UInt64.le_iff_toNat_le.mp within))
      unfold selectTxs
      split
      next => exact ⟨rfl, within⟩
      next accepted =>
        have later := fits.tail
        rw [← sum] at later
        obtain ⟨total, bound⟩ := ih (UInt64.not_lt.mp accepted) later
        refine ⟨?_, bound⟩
        rw [gasSum_cons, total, sum, Nat.add_assoc]

/-- A sum that wraps is lower than before, so its transaction is selected. -/
theorem selects_of_wrap (within : gasUsed ≤ gasLimit) {earlier : List SignedTransaction}
    {tx : SignedTransaction} (leads : earlier ++ [tx] <+: txs)
    (below : gasUsed.toNat + gasSum earlier ≤ gasLimit.toNat)
    (wraps : 2 ^ 64 ≤ gasUsed.toNat + gasSum (earlier ++ [tx]))
    : earlier ++ [tx] <+: (selectTxs gasLimit gasUsed txs).1 := by
  have small := gasLimit.toNat_lt
  induction earlier generalizing gasUsed txs with
  | nil =>
      obtain ⟨rest, rfl⟩ := leads
      rw [List.nil_append, gasSum_singleton] at wraps
      have used := UInt64.le_iff_toNat_le.mp within
      have added := (selectionGas tx).toNat_lt
      have accepted : ¬ gasUsed + selectionGas tx > gasLimit := by
        rw [gt_iff_lt, UInt64.lt_iff_toNat_lt, UInt64.toNat_add]
        omega
      rw [List.nil_append, List.singleton_append, selectTxs, if_neg accepted]
      exact List.cons_prefix_cons.mpr ⟨rfl, List.nil_prefix⟩
  | cons first earlier ih =>
      obtain ⟨rest, rfl⟩ := leads
      rw [List.cons_append, gasSum_cons] at wraps
      rw [gasSum_cons] at below
      have sum := @toNat_add_selectionGas gasUsed first (by omega)
      rw [← Nat.add_assoc, ← sum] at below wraps
      have accepted : ¬ gasUsed + selectionGas first > gasLimit := by
        rw [gt_iff_lt, UInt64.lt_iff_toNat_lt]
        omega
      rw [List.cons_append, List.cons_append, selectTxs, if_neg accepted]
      exact List.cons_prefix_cons.mpr
        ⟨rfl, ih (UInt64.not_lt.mp accepted) (List.prefix_append _ _) below wraps⟩

end Selection

-----------------------------------------------------------------------------------------
-- The bound of a block
-----------------------------------------------------------------------------------------

/-- The transactions of a block assembled from a pending list have no more gas than the limit
of the header, no running sum over them has wrapped, and the header has their gas.
-/
structure GasBounded (pending : List SignedTransaction) (block : Block) : Prop where
  bound : gasSum block.body.transactions ≤ block.header.gasLimit.toNat
  unwrapped
    : ∀ earlier tx,
        earlier <+: block.body.transactions
        → earlier ++ [tx] <+: pending
        → gasSum (earlier ++ [tx]) < 2 ^ 64
  gasUsed : block.header.gasUsed.toNat = gasSum block.body.transactions

variable {F : Type}

/-- The block assembled over a header from a pending list is bounded exactly when no
transaction after leading ones within the gas limit takes their sum beyond a word.
-/
theorem gasBounded_iff (host : Host F) (header : BlockHeader)
    (pending : List SignedTransaction)
    : let selection := selectTxs header.gasLimit 0 pending
      GasBounded pending (assembleBlock host header selection.1 selection.2)
        ↔ NoSumWraps header.gasLimit 0 pending := by
  intro selection
  have within : (0 : UInt64) ≤ header.gasLimit := UInt64.le_iff_toNat_le.mpr (Nat.zero_le _)
  have small := header.gasLimit.toNat_lt
  constructor
  · intro bounded earlier tx leads below
    rw [Nat.zero_add] at below ⊢
    by_contra wraps
    have selected := selects_of_wrap within leads (by simpa using below)
      (by simpa using Nat.le_of_not_lt wraps)
    have sum := (gasSum_le_of_leading selected).trans bounded.bound
    have limit : (assembleBlock host header selection.1 selection.2).header.gasLimit
        = header.gasLimit := rfl
    rw [limit] at sum
    omega
  · intro fits
    obtain ⟨total, bound⟩ := @selectTxs_exact header.gasLimit 0 pending within fits
    rw [UInt64.toNat_zero, Nat.zero_add] at total
    have limited : gasSum selection.1 ≤ header.gasLimit.toNat :=
      total ▸ UInt64.le_iff_toNat_le.mp bound
    refine ⟨limited, fun earlier tx selected leads => ?_, total⟩
    have below := (gasSum_le_of_leading selected).trans limited
    have sum := fits earlier tx leads (by rwa [Nat.zero_add])
    rwa [Nat.zero_add] at sum

/-- A transfer of a key, at a price and with a gas limit. -/
def transferWithin (secret : B256) (nonce : Nat) (price : U128) (gasLimit : UInt64)
    : SignedTransaction :=
  let sent := SignedTransaction.transfer secret 27181 nonce 4 0
  { sent with
    transaction := { sent.transaction with gasPrice := some price, gasLimit }
    hash := BitVec.ofNat 256 (secret.toNat + nonce) }

/-- The second of these transfers takes the sum to exactly the range of a word. -/
def wrappingTransfers : List SignedTransaction :=
  [transferWithin 9 0 1 21000, transferWithin 9 1 1 (0 - 21000)]

/-- Both transfers are selected, at a sum of zero. -/
theorem gasBounded_fails_on_wrappingTransfers
    : ¬ ∀ (host : Host Milli) (header : BlockHeader) (pending : List SignedTransaction),
        let selection := selectTxs header.gasLimit 0 pending
        GasBounded pending (assembleBlock host header selection.1 selection.2) := by
  intro claimed
  have bounded := claimed (.reference []) (.genesis 0) wrappingTransfers
  exact absurd bounded.bound (by decide +kernel)

-----------------------------------------------------------------------------------------
-- What an oversized transaction keeps out
-----------------------------------------------------------------------------------------

/-- Something is selected exactly when the first transaction fits. -/
theorem selectTxs_ne_nil_iff {gasLimit : UInt64} {txs : List SignedTransaction}
    : (selectTxs gasLimit 0 txs).1 ≠ []
      ↔ ∃ first, txs.head? = some first ∧ selectionGas first ≤ gasLimit := by
  cases txs with
  | nil => simp [selectTxs]
  | cons tx rest =>
      simp only [selectTxs, UInt64.zero_add, List.head?_cons, Option.some.injEq,
        exists_eq_left']
      split
      next large => exact iff_of_false (fun some_ => some_ rfl) (UInt64.not_le.mpr large)
      next fits => exact iff_of_true (List.cons_ne_nil _ _) (UInt64.not_lt.mp fits)

end Chain

namespace TransactionPool

/-- The first pending transaction of some sender fits a gas limit. -/
def SomeFirstFits (pool : TransactionPool) (gasLimit : UInt64) : Prop :=
  ∃ sender first,
    (pool.queueOf sender).pending.head? = some first ∧ Chain.selectionGas first ≤ gasLimit

/-- A pending transaction that no other one, of any sender, has to stand before. -/
structure Leads (pool : TransactionPool) (tx : SignedTransaction) : Prop where
  pending : ∃ sender, tx ∈ (pool.queueOf sender).pending
  before : ∀ sender, ∀ other ∈ (pool.queueOf sender).pending, precedes tx other

variable {crypto : Crypto} {pool : TransactionPool}
  {order : IterationOrder Address SenderQueue}

/-- The head of the sorted list leads. -/
theorem leads_of_head {tx : SignedTransaction} (first : (pool.sorted order).head? = some tx)
    : pool.Leads tx := by
  obtain ⟨rest, isSorted⟩ := List.head?_eq_some_iff.mp first
  have ordered := @pairwise_sorted pool order
  rw [isSorted, List.pairwise_cons] at ordered
  refine ⟨mem_sorted.mp (isSorted ▸ List.mem_cons_self), fun sender other member => ?_⟩
  have listed : other ∈ pool.sorted order := mem_sorted.mpr ⟨sender, member⟩
  rw [isSorted] at listed
  rcases List.mem_cons.mp listed with rfl | later
  · unfold precedes
    omega
  · exact ordered.1 other later

/-- Every leading transaction is at the head for some walk over the senders, one that starts
with its own: only transactions with lower nonces of this sender come before it then, and
they do not offer as much.
-/
theorem Filed.exists_head (filed : pool.Filed crypto) {tx : SignedTransaction}
    (leads : pool.Leads tx)
    : ∃ order : IterationOrder Address SenderQueue, (pool.sorted order).head? = some tx := by
  obtain ⟨sender, member⟩ := leads.pending
  obtain ⟨order⟩ := IterationOrder.nonempty Address SenderQueue
  obtain ⟨earlier, later, parts⟩ := List.append_of_mem member
  refine ⟨order.startingWith sender, ?_⟩
  have starts : (order.startingWith sender).keys pool.bySender
      = sender :: (order.keys pool.bySender).erase sender :=
    if_pos (mem_of_pending member)
  have ascending := filed.ascending_pending sender
  rw [parts, List.pairwise_append] at ascending
  have notBefore (other : SignedTransaction) (isEarlier : other ∈ earlier)
      : ¬ precedes other tx := by
    have lower := ascending.2.2 other isEarlier tx List.mem_cons_self
    have inPending : other ∈ (pool.queueOf sender).pending :=
      parts ▸ List.mem_append_left _ isEarlier
    have behind := leads.before sender other inPending
    unfold precedes at behind ⊢
    omega
  have before (other : SignedTransaction)
      (isLater : other ∈ later ++ ((order.keys pool.bySender).erase sender).flatMap
        (fun sender => (pool.queueOf sender).pending))
      : precedes tx other := by
    rcases List.mem_append.mp isLater with own | foreign
    · exact leads.before sender other (parts ▸ List.mem_append_right _ (List.mem_cons_of_mem _ own))
    · obtain ⟨owner, _, inPending⟩ := List.mem_flatMap.mp foreign
      exact leads.before owner other inPending
  obtain ⟨rest, isSorted⟩ := FinMap.insertionSort_of_leads notBefore before
  rw [sorted, starts, List.flatMap_cons, parts, List.append_assoc, List.cons_append, isSorted,
    List.head?_cons]

/-- In every pool that operations lead to, where the first pending transaction of some sender
fits, something is selected for every walk over the senders exactly when all transactions fit
that lead the pending ones.
-/
theorem selectsSome_iff {maxSize : Nat} {ops : List PoolOp} {gasLimit : UInt64}
    (someFits : (ops.foldl (PoolOp.run crypto) (withMaxSize maxSize)).SomeFirstFits gasLimit)
    : let pool := ops.foldl (PoolOp.run crypto) (withMaxSize maxSize)
      (∀ order, (Chain.selectTxs gasLimit 0 (pool.getPending order 1000)).1 ≠ [])
        ↔ ∀ tx, pool.Leads tx → Chain.selectionGas tx ≤ gasLimit := by
  intro pool
  have filed : pool.Filed crypto :=
    ((consistent_withMaxSize crypto maxSize).foldl_run ops).filed
  have cut (order : IterationOrder Address SenderQueue)
      : (pool.getPending order 1000).head? = (pool.sorted order).head? := by
    change ((pool.sorted order).take 1000).head? = _
    cases pool.sorted order <;> rfl
  constructor
  · intro selects tx leads
    obtain ⟨order, first⟩ := filed.exists_head leads
    obtain ⟨head, found, fits⟩ := Chain.selectTxs_ne_nil_iff.mp (selects order)
    rw [cut, first] at found
    exact Option.some.inj found ▸ fits
  · intro allFit order
    obtain ⟨sender, tx, queued, _⟩ := someFits
    have listed : tx ∈ pool.sorted order :=
      mem_sorted.mpr ⟨sender, List.mem_of_mem_head? queued⟩
    obtain ⟨head, rest, isSorted⟩ := List.exists_cons_of_ne_nil (List.ne_nil_of_mem listed)
    have first : (pool.sorted order).head? = some head := by rw [isSorted, List.head?_cons]
    exact Chain.selectTxs_ne_nil_iff.mpr
      ⟨head, (cut order).trans first, allFit head (leads_of_head first)⟩

/-- A transfer at the default limit waits, and another sender offers more for one that exceeds
it.
-/
def oversizedOps : List PoolOp :=
  [ .addTransaction (Chain.transferWithin 9 0 1 21000)
  , .addTransaction (Chain.transferWithin 8 0 5 40000000) ]

/-- The pool after these operations. -/
def oversizedPool : TransactionPool :=
  oversizedOps.foldl (PoolOp.run .disclosing) (withMaxSize defaultMaxPoolSize)

theorem oversizedPool_someFits : oversizedPool.SomeFirstFits defaultBlockGasLimit :=
  ⟨9, Chain.transferWithin 9 0 1 21000, by decide +kernel, by decide +kernel⟩

theorem selectsSome_iff_oversized
    : (∀ order,
        (Chain.selectTxs defaultBlockGasLimit 0 (oversizedPool.getPending order 1000)).1 ≠ [])
      ↔ ∀ tx, oversizedPool.Leads tx → Chain.selectionGas tx ≤ defaultBlockGasLimit :=
  selectsSome_iff oversizedPool_someFits

/-- The transfer that fits stands behind the one that does not. -/
theorem selectsSome_fails_on_oversized
    : ¬ ∀ (crypto : Crypto) (order : IterationOrder Address SenderQueue) (maxSize : Nat)
          (ops : List PoolOp) (gasLimit : UInt64),
        let pool := ops.foldl (PoolOp.run crypto) (withMaxSize maxSize)
        pool.byHash.keys.card ≤ 1000
        → pool.SomeFirstFits gasLimit
        → (Chain.selectTxs gasLimit 0 (pool.getPending order 1000)).1 ≠ [] := by
  intro claimed
  have selects := claimed .disclosing (FinMap.ascending BitVec.toNat Address.toNat_injective)
    defaultMaxPoolSize oversizedOps defaultBlockGasLimit (by decide +kernel)
    oversizedPool_someFits
  exact absurd selects (by decide +kernel)

end TransactionPool

end VeloChain
