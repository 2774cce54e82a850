import VeloChain.TxPool.PendingOrder

/-! The counters of the pool beside the list of its pending transactions.
`pendingCount` is the size of the index by hash and `pendingNonce` comes from the highest
queued nonce, while the list leaves out what stands behind a gap; no transaction ever counts
as queued.
-/

namespace VeloChain

namespace TransactionPool

-----------------------------------------------------------------------------------------
-- The counters
-----------------------------------------------------------------------------------------

/-- Get the number of pending transactions. -/
def pendingCount (pool : TransactionPool) : Nat := pool.byHash.keys.card

/-- Get the number of queued transactions. -/
def queuedCount (_ : TransactionPool) : Nat := 0

/-- Get total transaction count. -/
def totalCount (pool : TransactionPool) : Nat := pool.byHash.keys.card

/-- Get the pending nonce for a sender: the successor of its highest queued nonce, as a word. -/
def pendingNonce (sender : Address) (pool : TransactionPool) : Option Nat :=
  (pool.bySender.lookup sender).bind (fun queue =>
    queue.nonces.getLast?.map (fun lastNonce => (lastNonce + 1) % 2 ^ 64))

/-- The counters say of a list what it shows: its length, and for each sender the nonce after
the highest one listed.
-/
structure CountersAgree (crypto : Crypto) (pool : TransactionPool)
    (listed : List SignedTransaction) : Prop where
  pending : pool.pendingCount = listed.length
  total : pool.pendingCount + pool.queuedCount = pool.totalCount
  nonces
    : ∀ sender,
        pool.pendingNonce sender
        = ((sentBy crypto sender listed).map (fun tx => tx.transaction.nonce)).max?.map
            (· + 1)

/-- Every queued nonce is reached from the lowest one of its sender and has a successor among
the words.
-/
def NoGaps (pool : TransactionPool) : Prop :=
  ∀ sender nonce,
    nonce ∈ (pool.queueOf sender).txs →
    (pool.queueOf sender).Reaches nonce ∧ nonce + 1 < 2 ^ 64

end TransactionPool

-----------------------------------------------------------------------------------------
-- The highest nonces
-----------------------------------------------------------------------------------------

namespace SenderQueue

variable {queue : SenderQueue} {nonce : Nat}

/-- The last of the nonces in order is the highest queued one. -/
theorem getLast?_nonces : queue.nonces.getLast? = some nonce
    ↔ IsGreatest {n | n ∈ queue.txs} nonce := by
  have ascending := queue.ascending_nonces
  constructor
  · intro last
    obtain ⟨earlier, parts⟩ := List.getLast?_eq_some_iff.mp last
    rw [parts, List.pairwise_append] at ascending
    refine ⟨mem_nonces.mp (parts ▸ List.mem_append_right _ List.mem_cons_self), ?_⟩
    intro n queued
    have listed : n ∈ queue.nonces := mem_nonces.mpr queued
    rw [parts, List.mem_append, List.mem_singleton] at listed
    rcases listed with isEarlier | rfl
    · exact Nat.le_of_lt (ascending.2.2 n isEarlier nonce List.mem_cons_self)
    · exact Nat.le_refl _
  · rintro ⟨queued, greatest⟩
    obtain ⟨last, isLast⟩ : ∃ last, queue.nonces.getLast? = some last :=
      ⟨_, List.getLast?_eq_some_getLast (List.ne_nil_of_mem (mem_nonces.mpr queued))⟩
    obtain ⟨earlier, parts⟩ := List.getLast?_eq_some_iff.mp isLast
    have below := greatest (mem_nonces.mp (parts ▸ List.mem_append_right _ List.mem_cons_self))
    have listed : nonce ∈ queue.nonces := mem_nonces.mpr queued
    rw [parts, List.pairwise_append] at ascending
    rw [parts, List.mem_append, List.mem_singleton] at listed
    rcases listed with isEarlier | rfl
    · have := ascending.2.2 nonce isEarlier last List.mem_cons_self
      omega
    · exact isLast

end SenderQueue

namespace TransactionPool

variable {crypto : Crypto} {maxSize : Nat} {pool : TransactionPool}
  {order : IterationOrder Address SenderQueue}

theorem pendingNonce_eq (sender : Address)
    : pool.pendingNonce sender
      = (pool.queueOf sender).nonces.getLast?.map (fun lastNonce => (lastNonce + 1) % 2 ^ 64) := by
  unfold pendingNonce queueOf
  cases pool.bySender.lookup sender with
  | none => rfl
  | some queue => rfl

/-- The highest listed nonce of a sender is the highest one that is reached. -/
theorem Filed.max?_sorted (filed : pool.Filed crypto) {sender : Address} {nonce : Nat}
    : ((sentBy crypto sender (pool.sorted order)).map
        (fun tx => tx.transaction.nonce)).max? = some nonce
      ↔ IsGreatest {n | (pool.queueOf sender).Reaches n} nonce := by
  have reached (n : Nat)
      : n ∈ (sentBy crypto sender (pool.sorted order)).map (fun tx => tx.transaction.nonce)
        ↔ (pool.queueOf sender).Reaches n := by
    rw [← SenderQueue.mem_contiguous_nonces,
      ← SenderQueue.map_nonce_pending (fun nonce tx found => (filed sender nonce tx found).2)]
    exact ((filed.sentBy_sorted order sender).map _).mem_iff
  rw [List.max?_eq_some_iff]
  simp only [reached]
  rfl

-----------------------------------------------------------------------------------------
-- The length of the list
-----------------------------------------------------------------------------------------

/-- No transaction is listed twice: the senders have their own ones, each at one nonce. -/
theorem Filed.nodup_sorted (filed : pool.Filed crypto) : (pool.sorted order).Nodup := by
  refine (List.perm_insertionSort precedes _).nodup_iff.mpr (List.nodup_flatMap.mpr ⟨?_, ?_⟩)
  · intro sender _
    refine (filed.ascending_pending sender).imp (fun {left right} below same => ?_)
    exact Nat.ne_of_lt below (congrArg (fun tx => tx.transaction.nonce) same)
  · refine (order.nodup pool.bySender).imp (fun {left right} different tx inLeft inRight => ?_)
    obtain ⟨nonce, found, _⟩ := SenderQueue.mem_pending.mp inLeft
    obtain ⟨nonce', found', _⟩ := SenderQueue.mem_pending.mp inRight
    exact different (Except.ok.inj
      ((filed left nonce tx found).1.symm.trans (filed right nonce' tx found').1))

/-- The listed transactions, by their hashes, are transactions of the index by hash. -/
theorem Consistent.hashes_sorted (consistent : pool.Consistent crypto maxSize)
    : ((pool.sorted order).map SignedTransaction.hash).Nodup
      ∧ ∀ tx ∈ pool.sorted order, pool.byHash.lookup tx.hash = some tx := by
  have hashed (tx : SignedTransaction) (listed : tx ∈ pool.sorted order)
      : pool.byHash.lookup tx.hash = some tx := by
    obtain ⟨sender, member⟩ := mem_sorted.mp listed
    obtain ⟨nonce, found, _⟩ := SenderQueue.mem_pending.mp member
    exact (consistent.same.queued sender nonce tx found).2.2
  refine ⟨?_, hashed⟩
  refine List.Nodup.map_on (fun left inLeft right inRight same => ?_)
    consistent.filed.nodup_sorted
  have found := hashed left inLeft
  rw [same, hashed right inRight] at found
  exact (Option.some.inj found).symm

/-- The list is not longer than the index by hash, and as long exactly when every queued nonce
is reached.
-/
theorem Consistent.length_sorted (consistent : pool.Consistent crypto maxSize)
    : (pool.sorted order).length ≤ pool.byHash.keys.card
      ∧ (pool.byHash.keys.card = (pool.sorted order).length
        ↔ ∀ sender nonce, nonce ∈ (pool.queueOf sender).txs →
            (pool.queueOf sender).Reaches nonce) := by
  obtain ⟨distinct, hashed⟩ := @Consistent.hashes_sorted _ _ _ order consistent
  have size := List.toFinset_card_of_nodup distinct
  rw [List.length_map] at size
  have included : ((pool.sorted order).map SignedTransaction.hash).toFinset ⊆ pool.byHash.keys := by
    intro hash listed
    obtain ⟨tx, member, rfl⟩ := List.mem_map.mp (List.mem_toFinset.mp listed)
    exact Finmap.mem_keys.mpr (Finmap.mem_of_lookup_eq_some (hashed tx member))
  refine ⟨size ▸ Finset.card_le_card included, ?_⟩
  constructor
  · intro same sender nonce queued
    have all := Finset.eq_of_subset_of_card_le included (by rw [size, same])
    obtain ⟨tx, found⟩ := Finmap.mem_iff.mp queued
    obtain ⟨recovered, isNonce, known⟩ := consistent.same.queued sender nonce tx found
    have listed : tx.hash ∈ pool.byHash.keys :=
      Finmap.mem_keys.mpr (Finmap.mem_of_lookup_eq_some known)
    rw [← all, List.mem_toFinset] at listed
    obtain ⟨other, member, sameHash⟩ := List.mem_map.mp listed
    have found' := hashed other member
    rw [sameHash, known] at found'
    obtain rfl : tx = other := Option.some.inj found'
    obtain ⟨owner, inPending⟩ := mem_sorted.mp member
    obtain ⟨nonce', found', reaches⟩ := SenderQueue.mem_pending.mp inPending
    obtain ⟨recovered', isNonce'⟩ := consistent.filed owner nonce' tx found'
    obtain rfl : sender = owner := Except.ok.inj (recovered.symm.trans recovered')
    rwa [← isNonce, isNonce']
  · intro reaches
    refine le_antisymm ?_ (size ▸ Finset.card_le_card included)
    rw [← size]
    refine Finset.card_le_card (fun hash known => ?_)
    obtain ⟨tx, found⟩ := Finmap.mem_iff.mp (Finmap.mem_keys.mp known)
    obtain ⟨rfl, sender, recovered, queued⟩ := consistent.same.hashed hash tx found
    have reached := reaches sender _ (Finmap.mem_of_lookup_eq_some queued)
    refine List.mem_toFinset.mpr (List.mem_map_of_mem (mem_sorted.mpr ⟨sender, ?_⟩))
    exact SenderQueue.mem_pending.mpr ⟨_, queued, reached⟩

-----------------------------------------------------------------------------------------
-- Agreement
-----------------------------------------------------------------------------------------

/-- With a limit that leaves nothing out, the whole sorted list is returned. -/
theorem Consistent.getPending_eq (consistent : pool.Consistent crypto maxSize) {maxCount : Nat}
    (unlimited : pool.totalCount ≤ maxCount)
    : pool.getPending order maxCount = pool.sorted order :=
  List.take_of_length_le
    ((@Consistent.length_sorted _ _ _ order consistent).1.trans unlimited)

/-- The counters agree with the sorted list exactly when there are no gaps. -/
theorem Consistent.countersAgree_iff (consistent : pool.Consistent crypto maxSize)
    : pool.CountersAgree crypto (pool.sorted order) ↔ pool.NoGaps := by
  obtain ⟨_, reached_iff⟩ := @Consistent.length_sorted _ _ _ order consistent
  have highest (sender : Address) (nonce : Nat)
      := @Filed.max?_sorted _ _ order consistent.filed sender nonce
  constructor
  · intro agree sender nonce queued
    have reaches := reached_iff.mp agree.pending
    refine ⟨reaches sender nonce queued, ?_⟩
    obtain ⟨last, isLast⟩ : ∃ last, (pool.queueOf sender).nonces.getLast? = some last :=
      ⟨_, List.getLast?_eq_some_getLast (List.ne_nil_of_mem (SenderQueue.mem_nonces.mpr queued))⟩
    obtain ⟨lastQueued, greatest⟩ := SenderQueue.getLast?_nonces.mp isLast
    have listed := (highest sender last).mpr
      ⟨reaches sender last lastQueued, fun n reached => greatest reached.1⟩
    have same := agree.nonces sender
    rw [pendingNonce_eq, isLast, listed, Option.map_some, Option.map_some] at same
    have below := greatest queued
    have word := Option.some.inj same
    omega
  · intro noGaps
    refine ⟨reached_iff.mpr (fun sender nonce queued => (noGaps sender nonce queued).1), rfl,
      fun sender => ?_⟩
    have same : {n | (pool.queueOf sender).Reaches n} = {n | n ∈ (pool.queueOf sender).txs} :=
      Set.ext fun n => ⟨fun reached => reached.1, fun queued => (noGaps sender n queued).1⟩
    rw [pendingNonce_eq]
    cases isLast : (pool.queueOf sender).nonces.getLast? with
    | none =>
        cases listed : ((sentBy crypto sender (pool.sorted order)).map
            (fun tx => tx.transaction.nonce)).max? with
        | none => rfl
        | some nonce =>
            have greatest := (highest sender nonce).mp listed
            rw [same] at greatest
            exact absurd (SenderQueue.getLast?_nonces.mpr greatest) (by simp [isLast])
    | some last =>
        have greatest := SenderQueue.getLast?_nonces.mp isLast
        rw [(highest sender last).mpr (same ▸ greatest), Option.map_some, Option.map_some,
          Nat.mod_eq_of_lt (noGaps sender last greatest.1).2]

/-- In every pool that operations lead to, the counters agree with what `getPending` returns
without limit, for every walk over the senders, exactly when there are no gaps.
-/
theorem countersAgree_run_iff (crypto : Crypto) (order : IterationOrder Address SenderQueue)
    (maxSize : Nat) (ops : List PoolOp)
    : let pool := ops.foldl (PoolOp.run crypto) (withMaxSize maxSize)
      (∀ maxCount, pool.totalCount ≤ maxCount →
          pool.CountersAgree crypto (pool.getPending order maxCount))
        ↔ pool.NoGaps := by
  intro pool
  have consistent : pool.Consistent crypto maxSize :=
    (consistent_withMaxSize crypto maxSize).foldl_run ops
  rw [← @Consistent.countersAgree_iff _ _ _ order consistent]
  constructor
  · intro agree
    have whole := agree pool.totalCount (Nat.le_refl _)
    rwa [consistent.getPending_eq (Nat.le_refl _)] at whole
  · intro agree maxCount unlimited
    rwa [consistent.getPending_eq unlimited]

/-- Key 9 has sent its first and its third transaction. -/
def gapOps : List PoolOp := [.addTransaction (pricedTx 0 1), .addTransaction (pricedTx 2 1)]

/-- Two transactions count as pending, and one is listed. -/
theorem countersAgree_fails_on_gap
    : ¬ ∀ (crypto : Crypto) (order : IterationOrder Address SenderQueue) (maxSize : Nat)
          (ops : List PoolOp) (maxCount : Nat),
        let pool := ops.foldl (PoolOp.run crypto) (withMaxSize maxSize)
        pool.totalCount ≤ maxCount →
        pool.CountersAgree crypto (pool.getPending order maxCount) := by
  intro claimed
  have agree := claimed numberedCrypto (FinMap.ascending BitVec.toNat Address.toNat_injective)
    defaultMaxPoolSize gapOps 2 (by decide +kernel)
  exact absurd agree.pending (by decide +kernel)

end TransactionPool

end VeloChain
