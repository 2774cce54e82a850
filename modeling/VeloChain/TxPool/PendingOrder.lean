import VeloChain.Lib.CountedList
import VeloChain.TxPool.PoolIndex

/-! The order in which the pool lists its pending transactions.
For each sender the leading nonces without a gap are collected, but the list of all senders is then
sorted by gas price: a sender's own transactions stay in the order of their nonces only where their
prices do not rise.
-/

namespace VeloChain

open CountedList

namespace SenderQueue

/-- Every nonce from the lowest one of the queue to this one is queued. -/
def Reaches (queue : SenderQueue) (nonce : Nat) : Prop :=
  nonce ∈ queue.txs
  ∧ ∀ lower n, lower ∈ queue.txs → lower ≤ n → n ≤ nonce → n ∈ queue.txs

variable {queue : SenderQueue}

theorem mem_nonces {nonce : Nat} : nonce ∈ queue.nonces ↔ nonce ∈ queue.txs :=
  FinMap.mem_sortedKeys _ _

theorem ascending_nonces (queue : SenderQueue) : queue.nonces.Pairwise (· < ·) :=
  FinMap.pairwise_sortedKeys queue.txs

theorem Reaches.of_le {earlier later : Nat} (reaches : queue.Reaches later)
    (queued : earlier ∈ queue.txs) (le : earlier ≤ later)
    : queue.Reaches earlier :=
  ⟨queued, fun lower n isLower above below =>
    reaches.2 lower n isLower above (Nat.le_trans below le)⟩

-----------------------------------------------------------------------------------------
-- The leading nonces
-----------------------------------------------------------------------------------------

theorem contiguous_none_cons (nonce : Nat) (rest : List Nat)
    : contiguous none (nonce :: rest) = contiguous (some nonce) (nonce :: rest) := by
  simp only [contiguous, Option.getD_none, Option.getD_some]

/-- What is taken counts from the expected nonce, by induction on the nonces. -/
theorem contiguous_counts (expected : Nat) (nonces : List Nat)
    : CountsFrom id expected (contiguous (some expected) nonces) := by
  induction nonces generalizing expected with
  | nil => exact countsFrom_nil expected
  | cons nonce rest ih =>
      unfold contiguous
      split
      next same =>
        obtain rfl : expected = nonce := same
        exact countsFrom_cons.mpr ⟨rfl, ih (expected + 1)⟩
      next => exact countsFrom_nil expected

/-- From ascending nonces those are taken that are reached without a gap. -/
theorem mem_contiguous {expected : Nat} {nonces : List Nat}
    (ascending : nonces.Pairwise (· < ·)) (least : ∀ n ∈ nonces, expected ≤ n) {nonce : Nat}
    : nonce ∈ contiguous (some expected) nonces
      ↔ expected ≤ nonce ∧ ∀ n, expected ≤ n → n ≤ nonce → n ∈ nonces := by
  induction nonces generalizing expected with
  | nil =>
      refine iff_of_false (by simp [contiguous]) ?_
      rintro ⟨le, all⟩
      simpa using all nonce le (Nat.le_refl _)
  | cons head rest ih =>
      obtain ⟨below, later⟩ := List.pairwise_cons.mp ascending
      have headLe := least head List.mem_cons_self
      unfold contiguous
      split
      next same =>
        obtain rfl : expected = head := same
        rw [List.mem_cons, ih later below]
        constructor
        · rintro (rfl | ⟨le, all⟩)
          · exact ⟨Nat.le_refl _, fun n above le =>
              Nat.le_antisymm above le ▸ List.mem_cons_self⟩
          · refine ⟨Nat.le_of_succ_le le, fun n above le' => ?_⟩
            rcases Nat.eq_or_lt_of_le above with rfl | higher
            · exact List.mem_cons_self
            · exact List.mem_cons_of_mem _ (all n higher le')
        · rintro ⟨le, all⟩
          rcases Nat.eq_or_lt_of_le le with rfl | higher
          · exact Or.inl rfl
          · refine Or.inr ⟨higher, fun n above le' => ?_⟩
            rcases List.mem_cons.mp (all n (Nat.le_of_succ_le above) le') with rfl | later
            · exact absurd above (Nat.lt_irrefl _)
            · exact later
      next different =>
        refine iff_of_false (by simp) ?_
        rintro ⟨le, all⟩
        rcases List.mem_cons.mp (all expected (Nat.le_refl _) le) with same | later
        · exact different same
        · have := below expected later
          omega

/-- The lowest nonce, and what is taken from it on. -/
theorem exists_lowest {nonce : Nat} (queued : nonce ∈ queue.txs)
    : ∃ lowest,
        IsLeast {n | n ∈ queue.txs} lowest
        ∧ contiguous none queue.nonces = contiguous (some lowest) queue.nonces := by
  have ascending := ascending_nonces queue
  cases nonces : queue.nonces with
  | nil =>
      have listed := mem_nonces.mpr queued
      rw [nonces] at listed
      simp at listed
  | cons head rest =>
      rw [nonces] at ascending
      obtain ⟨below, _⟩ := List.pairwise_cons.mp ascending
      refine ⟨head, ⟨?_, ?_⟩, contiguous_none_cons head rest⟩
      · exact mem_nonces.mp (nonces ▸ List.mem_cons_self)
      · intro n isQueued
        have listed := mem_nonces.mpr isQueued
        rw [nonces] at listed
        rcases List.mem_cons.mp listed with rfl | later
        · exact Nat.le_refl _
        · exact Nat.le_of_lt (below n later)

theorem mem_contiguous_nonces {nonce : Nat}
    : nonce ∈ contiguous none queue.nonces ↔ queue.Reaches nonce := by
  by_cases some_ : ∃ n, n ∈ queue.txs
  · obtain ⟨n, queued⟩ := some_
    obtain ⟨lowest, ⟨isQueued, least⟩, same⟩ := exists_lowest queued
    rw [same, mem_contiguous (ascending_nonces queue)
      (fun n listed => least (mem_nonces.mp listed))]
    simp only [mem_nonces]
    constructor
    · rintro ⟨le, all⟩
      exact ⟨all nonce le (Nat.le_refl _),
        fun lower n isLower above => all n (Nat.le_trans (least isLower) above)⟩
    · rintro ⟨queued, all⟩
      exact ⟨least queued, fun n => all lowest n isQueued⟩
  · have none : queue.nonces = [] :=
      List.eq_nil_iff_forall_not_mem.mpr (fun n listed => some_ ⟨n, mem_nonces.mp listed⟩)
    rw [none]
    exact iff_of_false (by simp [contiguous]) (fun reaches => some_ ⟨nonce, reaches.1⟩)

theorem mem_pending {tx : SignedTransaction}
    : tx ∈ queue.pending ↔ ∃ nonce, queue.txs.lookup nonce = some tx ∧ queue.Reaches nonce := by
  unfold pending
  rw [List.mem_filterMap]
  simp only [mem_contiguous_nonces]
  exact exists_congr (fun nonce => and_comm)

/-- The pending transactions have the leading nonces of the queue. -/
theorem map_nonce_pending
    (filed : ∀ nonce tx, queue.txs.lookup nonce = some tx → tx.transaction.nonce = nonce)
    : queue.pending.map (fun tx => tx.transaction.nonce) = contiguous none queue.nonces := by
  have kept := FinMap.map_filter_filterMap_lookup filed (fun _ => true)
    (contiguous none queue.nonces)
  rw [List.filter_true] at kept
  refine kept.trans (List.filter_eq_self.mpr fun nonce listed => ?_)
  obtain ⟨tx, found⟩ := Finmap.mem_iff.mp (mem_contiguous_nonces.mp listed).1
  rw [found]
  rfl

end SenderQueue

-----------------------------------------------------------------------------------------
-- The sort by price
-----------------------------------------------------------------------------------------

namespace TransactionPool

/-- The listed transactions of each sender have contiguous nonces that start at the lowest one
that the sender has in the pool.
-/
def NoncesInOrder (crypto : Crypto) (pool : TransactionPool) (listed : List SignedTransaction)
    : Prop :=
  ∀ sender, sentBy crypto sender listed ≠ [] →
    ∃ lowest,
      IsLeast {nonce | nonce ∈ (pool.queueOf sender).txs} lowest
      ∧ CountsFrom (fun (tx : SignedTransaction) => tx.transaction.nonce) lowest
          (sentBy crypto sender listed)

/-- Among the transactions of a sender that are reached without a gap, none offers a higher
price than one with a lower nonce.
-/
def PricesFall (pool : TransactionPool) : Prop :=
  ∀ sender earlier later left right,
    (pool.queueOf sender).txs.lookup earlier = some left →
    (pool.queueOf sender).txs.lookup later = some right →
    earlier < later →
    (pool.queueOf sender).Reaches later →
    offeredPrice right ≤ offeredPrice left

/-- The pending transactions of all senders, sorted but not yet cut. -/
def sorted (order : IterationOrder Address SenderQueue) (pool : TransactionPool)
    : List SignedTransaction :=
  ((order.keys pool.bySender).flatMap (fun sender => (pool.queueOf sender).pending)).insertionSort
    precedes

variable {crypto : Crypto} {maxSize : Nat} {pool : TransactionPool}
  {order : IterationOrder Address SenderQueue}

instance : Std.Total precedes where
  total left right := by
    unfold precedes
    omega

instance : IsTrans SignedTransaction precedes where
  trans left middle right := by
    unfold precedes
    omega

theorem mem_of_pending {sender : Address} {tx : SignedTransaction}
    (member : tx ∈ (pool.queueOf sender).pending)
    : sender ∈ pool.bySender := by
  by_contra missing
  rw [← Finmap.lookup_eq_none] at missing
  simp only [queueOf, missing, Option.getD_none] at member
  exact absurd member List.not_mem_nil

/-- The sorted list has the pending transactions of all senders. -/
theorem mem_sorted {tx : SignedTransaction}
    : tx ∈ pool.sorted order ↔ ∃ sender, tx ∈ (pool.queueOf sender).pending := by
  rw [sorted, List.mem_insertionSort, List.mem_flatMap]
  constructor
  · rintro ⟨sender, _, member⟩
    exact ⟨sender, member⟩
  · rintro ⟨sender, member⟩
    exact ⟨sender, (order.mem_keys _ _).mpr (mem_of_pending member), member⟩

theorem pairwise_sorted : (pool.sorted order).Pairwise precedes :=
  List.pairwise_insertionSort precedes _

/-- A list with one part for each sender has exactly its part from a sender. -/
theorem sentBy_flatMap {parts : Address → List SignedTransaction}
    (own : ∀ sender, ∀ tx ∈ parts sender, tx.sender crypto = .ok sender)
    {senders : List Address} (nodup : senders.Nodup) (sender : Address)
    : sentBy crypto sender (senders.flatMap parts)
      = if sender ∈ senders then parts sender else [] := by
  induction senders with
  | nil => rfl
  | cons head rest ih =>
      obtain ⟨fresh, nodup⟩ := List.nodup_cons.mp nodup
      have split : sentBy crypto sender ((head :: rest).flatMap parts)
          = sentBy crypto sender (parts head) ++ sentBy crypto sender (rest.flatMap parts) :=
        List.filter_append ..
      rw [split, ih nodup]
      by_cases same : sender = head
      · subst same
        have all : sentBy crypto sender (parts sender) = parts sender :=
          List.filter_eq_self.mpr fun tx member => decide_eq_true (own sender tx member)
        simp only [all, fresh, if_false, List.append_nil, List.mem_cons_self, if_true]
      · have none : sentBy crypto sender (parts head) = [] := by
          apply List.filter_eq_nil_iff.mpr
          intro tx member
          rw [decide_eq_true_eq, own head tx member]
          exact fun other => same (Except.ok.inj other).symm
        simp only [none, List.nil_append, List.mem_cons, same, false_or]

/-- Of each sender the sorted list has the pending transactions of its queue. -/
theorem Filed.sentBy_sorted (filed : pool.Filed crypto)
    (order : IterationOrder Address SenderQueue) (sender : Address)
    : (sentBy crypto sender (pool.sorted order)).Perm (pool.queueOf sender).pending := by
  have own (owner : Address) (tx : SignedTransaction)
      (member : tx ∈ (pool.queueOf owner).pending)
      : tx.sender crypto = .ok owner := by
    obtain ⟨nonce, found, _⟩ := SenderQueue.mem_pending.mp member
    exact (filed owner nonce tx found).1
  have collected := sentBy_flatMap own (order.nodup pool.bySender) sender
  have unsorted
      := (List.perm_insertionSort precedes
          ((order.keys pool.bySender).flatMap
            (fun sender => (pool.queueOf sender).pending))).filter
        (fun tx => decide (tx.sender crypto = .ok sender))
  refine unsorted.trans (List.Perm.of_eq (collected.trans ?_))
  split
  next => rfl
  next missing =>
    rw [order.mem_keys, ← Finmap.lookup_eq_none] at missing
    simp only [queueOf, missing, Option.getD_none]
    rfl

/-- The pending transactions of a sender count from its lowest nonce. -/
theorem Filed.pending_counts (filed : pool.Filed crypto) {sender : Address}
    (some_ : (pool.queueOf sender).pending ≠ [])
    : ∃ lowest,
        IsLeast {nonce | nonce ∈ (pool.queueOf sender).txs} lowest
        ∧ CountsFrom (fun (tx : SignedTransaction) => tx.transaction.nonce) lowest
            (pool.queueOf sender).pending := by
  obtain ⟨tx, member⟩ := List.exists_mem_of_ne_nil _ some_
  obtain ⟨nonce, _, queued, _⟩ := SenderQueue.mem_pending.mp member
  obtain ⟨lowest, isLeast, same⟩ := SenderQueue.exists_lowest queued
  have numbers := @SenderQueue.map_nonce_pending (pool.queueOf sender)
    (fun nonce tx found => (filed sender nonce tx found).2)
  have counts := SenderQueue.contiguous_counts lowest (pool.queueOf sender).nonces
  refine ⟨lowest, isLeast, ?_⟩
  unfold CountsFrom at counts ⊢
  rw [List.map_id, ← same, ← numbers, List.length_map] at counts
  exact counts

theorem Filed.ascending_pending (filed : pool.Filed crypto) (sender : Address)
    : (pool.queueOf sender).pending.Pairwise
        (fun left right => left.transaction.nonce < right.transaction.nonce) := by
  by_cases none : (pool.queueOf sender).pending = []
  · rw [none]
    exact .nil
  · obtain ⟨_, _, counts⟩ := filed.pending_counts none
    exact counts.ascending

/-- No two listed transactions of a sender have one nonce. -/
theorem Filed.distinct_getPending (filed : pool.Filed crypto) (maxCount : Nat) (sender : Address)
    : (sentBy crypto sender (pool.getPending order maxCount)).Pairwise
        (fun left right => left.transaction.nonce ≠ right.transaction.nonce) := by
  have distinct := (filed.ascending_pending sender).imp (fun below => Nat.ne_of_lt below)
  have whole := ((filed.sentBy_sorted order sender).pairwise_iff
    (fun apart => apart.symm)).mpr distinct
  exact whole.sublist ((List.take_sublist maxCount (pool.sorted order)).filter _)

/-- Where the prices of a sender fall, the sort keeps its transactions in the order of their
nonces: they are sorted already, and one sender has no two that are equal to the sort.
-/
theorem PricesFall.sentBy_sorted (fall : pool.PricesFall) (filed : pool.Filed crypto)
    (order : IterationOrder Address SenderQueue) (sender : Address)
    : sentBy crypto sender (pool.sorted order) = (pool.queueOf sender).pending := by
  have same := filed.sentBy_sorted order sender
  have slot (tx : SignedTransaction) (member : tx ∈ (pool.queueOf sender).pending)
      : (pool.queueOf sender).txs.lookup tx.transaction.nonce = some tx
        ∧ (pool.queueOf sender).Reaches tx.transaction.nonce := by
    obtain ⟨nonce, found, reaches⟩ := SenderQueue.mem_pending.mp member
    rw [(filed sender nonce tx found).2]
    exact ⟨found, reaches⟩
  have falling : (pool.queueOf sender).pending.Pairwise precedes := by
    refine (filed.ascending_pending sender).imp_of_mem fun {left right} inLeft inRight below => ?_
    have price := fall sender _ _ left right (slot left inLeft).1 (slot right inRight).1 below
      (slot right inRight).2
    unfold precedes
    omega
  refine same.eq_of_pairwise ?_ (pairwise_sorted.filter _) falling
  intro left right inLeft inRight before after
  have sameNonce : left.transaction.nonce = right.transaction.nonce := by
    unfold precedes at before after
    omega
  have found := (slot left (same.mem_iff.mp inLeft)).1
  rw [sameNonce, (slot right inRight).1] at found
  exact (Option.some.inj found).symm

/-- A pool lists the transactions of every sender in the order of their nonces, however many
are asked for and wherever the list is cut, exactly when their prices fall.
-/
theorem Filed.noncesInOrder_iff (filed : pool.Filed crypto)
    : (∀ maxCount listed, listed <+: pool.getPending order maxCount →
        pool.NoncesInOrder crypto listed)
      ↔ pool.PricesFall := by
  constructor
  · intro all sender earlier later left right isLeft isRight below reaches
    have whole : pool.getPending order (pool.sorted order).length = pool.sorted order :=
      List.take_length
    have member {nonce : Nat} {tx : SignedTransaction}
        (found : (pool.queueOf sender).txs.lookup nonce = some tx)
        (reached : (pool.queueOf sender).Reaches nonce)
        : tx ∈ sentBy crypto sender (pool.sorted order) :=
      (filed.sentBy_sorted order sender).mem_iff.mpr
        (SenderQueue.mem_pending.mpr ⟨nonce, found, reached⟩)
    have leftMember := member isLeft
      (reaches.of_le (Finmap.mem_of_lookup_eq_some isLeft) (Nat.le_of_lt below))
    have rightMember := member isRight reaches
    have inOrder := all (pool.sorted order).length _ List.prefix_rfl
    rw [whole] at inOrder
    obtain ⟨_, _, counts⟩ := inOrder sender (List.ne_nil_of_mem leftMember)
    have leftNonce := (filed sender earlier left isLeft).2
    have rightNonce := (filed sender later right isRight).2
    -- the list is sorted by price, so the lower nonce can only come first by its price
    have before : precedes left right :=
      rel_of_ascending counts.ascending (pairwise_sorted.filter _) leftMember rightMember
        (by omega)
    unfold precedes at before
    omega
  · intro fall maxCount listed isPrefix sender some_
    obtain ⟨rest, cut⟩ := isPrefix.trans (List.take_prefix maxCount (pool.sorted order))
    have isPending := fall.sentBy_sorted filed order sender
    rw [← cut] at isPending
    unfold sentBy at isPending some_ ⊢
    rw [List.filter_append] at isPending
    obtain ⟨lowest, isLeast, counts⟩ := @Filed.pending_counts _ _ filed sender (by
      rw [← isPending]
      exact List.append_ne_nil_of_left_ne_nil some_ _)
    rw [← isPending] at counts
    exact ⟨lowest, isLeast, counts.of_append⟩

/-- In every pool that operations lead to, the listed transactions of each sender have contiguous
nonces from its lowest one on, for every limit and every cut, exactly when no sender offers more
for a later transaction.
-/
theorem pendingOrder_run_iff (crypto : Crypto) (order : IterationOrder Address SenderQueue)
    (maxSize : Nat) (ops : List PoolOp)
    : let pool := ops.foldl (PoolOp.run crypto) (withMaxSize maxSize)
      (∀ maxCount listed, listed <+: pool.getPending order maxCount →
          pool.NoncesInOrder crypto listed)
        ↔ pool.PricesFall := by
  intro pool
  have consistent := (consistent_withMaxSize crypto maxSize).foldl_run ops
  exact consistent.filed.noncesInOrder_iff

-----------------------------------------------------------------------------------------
-- A sender that raises its price
-----------------------------------------------------------------------------------------

/-- Evaluation with a hash that tells the transactions of one key apart by their nonces. -/
def numberedCrypto : Crypto :=
  { Crypto.disclosing with
    signatureJson := fun signature => (hashSlice signature.r).drop 12 }

/-- A transaction of key 9 with a price for its gas. -/
def pricedTx (nonce : Nat) (price : U128) : SignedTransaction :=
  let transaction : Transaction :=
    { txType := .legacy, chainId := 27181, nonce, gasPrice := some price, maxFeePerGas := none
      maxPriorityFeePerGas := none, gasLimit := 21000, «to» := some 4, value := 0, input := []
      gameAction := none }
  let signature : Signature := { v := 0, r := 9, s := 0 }
  { transaction, signature
    hash := SignedTransaction.computeHash numberedCrypto transaction signature }

/-- The pool has a first transaction at price 1 and a second one at price 5. -/
def raisedOps : List PoolOp := [.addTransaction (pricedTx 0 1), .addTransaction (pricedTx 1 5)]

/-- A list of one transaction has the second. -/
theorem pendingOrder_fails
    : ¬ ∀ (crypto : Crypto) (order : IterationOrder Address SenderQueue) (maxSize : Nat)
          (ops : List PoolOp) (maxCount : Nat),
        let pool := ops.foldl (PoolOp.run crypto) (withMaxSize maxSize)
        pool.NoncesInOrder crypto (pool.getPending order maxCount) := by
  intro claimed
  have inOrder := claimed numberedCrypto (FinMap.ascending BitVec.toNat Address.toNat_injective)
    defaultMaxPoolSize raisedOps 1 9
  have listed
      : sentBy numberedCrypto 9
          (getPending (FinMap.ascending BitVec.toNat Address.toNat_injective) 1
            (raisedOps.foldl (PoolOp.run numberedCrypto) (withMaxSize defaultMaxPoolSize)))
        = [pricedTx 1 5] := by decide +kernel
  have queued
      : 0 ∈ (queueOf (raisedOps.foldl (PoolOp.run numberedCrypto)
              (withMaxSize defaultMaxPoolSize)) 9).txs := by decide +kernel
  rw [listed] at inOrder
  obtain ⟨lowest, ⟨_, least⟩, counts⟩ := inOrder (List.cons_ne_nil _ _)
  have first : lowest ≤ 0 := least queued
  have starts : 1 = lowest := (countsFrom_cons.mp counts).1
  omega

end TransactionPool

end VeloChain
