import VeloChain.TxPool.Pool

/-! The two indexes of the transaction pool.
The index by hash and the queues by sender and nonce hold the same transactions, whatever the
sequence of additions and removals.
-/

namespace VeloChain

namespace TransactionPool

/-- The transaction stands in the queue of its sender, under its nonce. -/
def Queued (crypto : Crypto) (pool : TransactionPool) (tx : SignedTransaction) : Prop :=
  ∃ sender,
    tx.sender crypto = .ok sender
    ∧ (pool.queueOf sender).txs.lookup tx.transaction.nonce = some tx

/-- The index by hash and the queues hold the same transactions, each under its own keys. -/
structure SameTransactions (crypto : Crypto) (pool : TransactionPool) : Prop where
  hashed
    : ∀ hash tx, pool.byHash.lookup hash = some tx → tx.hash = hash ∧ pool.Queued crypto tx
  queued
    : ∀ sender nonce tx, (pool.queueOf sender).txs.lookup nonce = some tx →
        tx.sender crypto = .ok sender
        ∧ tx.transaction.nonce = nonce
        ∧ pool.byHash.lookup tx.hash = some tx

/-- The indexes agree, no queue is empty, and the pool is not larger than it may be. -/
structure Consistent (crypto : Crypto) (maxSize : Nat) (pool : TransactionPool) : Prop where
  same : pool.SameTransactions crypto
  nonempty : ∀ sender queue, pool.bySender.lookup sender = some queue → queue.txs.keys.card ≠ 0
  limit : pool.maxSize = maxSize
  size : pool.byHash.keys.card ≤ maxSize

variable {crypto : Crypto} {maxSize : Nat} {pool : TransactionPool}

theorem consistent_withMaxSize (crypto : Crypto) (maxSize : Nat)
    : (withMaxSize maxSize).Consistent crypto maxSize := by
  have noTx (sender : Address) : ((withMaxSize maxSize).queueOf sender).txs = ∅ := rfl
  refine ⟨⟨?_, ?_⟩, ?_, rfl, Nat.zero_le _⟩
  · intro hash tx found
    simp [withMaxSize] at found
  · intro sender nonce tx found
    simp [noTx] at found
  · intro sender queue found
    simp [withMaxSize] at found

theorem Consistent.clear (consistent : pool.Consistent crypto maxSize)
    : pool.clear.Consistent crypto maxSize := by
  obtain ⟨same, nonempty, _, size⟩ := consistent_withMaxSize crypto maxSize
  exact ⟨⟨same.hashed, same.queued⟩, nonempty, consistent.limit, size⟩

-----------------------------------------------------------------------------------------
-- Additions
-----------------------------------------------------------------------------------------

/-- What an addition that succeeds has checked, and the pool it leaves. -/
theorem addTransaction_ok_iff {tx : SignedTransaction} {hash : B256} {after : TransactionPool}
    : addTransaction crypto tx pool = (.ok hash, after)
      ↔ ∃ sender,
          tx.hash ∉ pool.byHash
          ∧ pool.byHash.keys.card < pool.maxSize
          ∧ tx.sender crypto = .ok sender
          ∧ tx.transaction.nonce ∉ (pool.queueOf sender).txs
          ∧ hash = tx.hash
          ∧ after
            = { pool with
                byHash := pool.byHash.insert tx.hash tx
                bySender := pool.bySender.insert sender
                  { txs := (pool.queueOf sender).txs.insert tx.transaction.nonce tx } } := by
  unfold addTransaction
  by_cases known : tx.hash ∈ pool.byHash
  · simp [known]
  · by_cases full : pool.byHash.keys.card ≥ pool.maxSize
    · simp [known, full]
    · cases recovered : tx.sender crypto with
      | error e => simp [known, full]
      | ok sender =>
          by_cases used : tx.transaction.nonce ∈ (pool.queueOf sender).txs
          · simp [known, full, used]
          · simp only [known, full, used, if_false, Prod.mk.injEq, Except.ok.injEq,
              not_false_eq_true, Nat.lt_of_not_le full, true_and, exists_eq_left']
            exact ⟨fun ⟨hash, after⟩ => ⟨hash.symm, after.symm⟩,
              fun ⟨hash, after⟩ => ⟨hash.symm, after.symm⟩⟩

/-- A rejected addition leaves the pool as it is. -/
theorem addTransaction_error {tx : SignedTransaction} {e : TxPoolError}
    (rejected : (addTransaction crypto tx pool).1 = .error e)
    : (addTransaction crypto tx pool).2 = pool := by
  unfold addTransaction at rejected ⊢
  split
  next => rfl
  next fresh =>
    rw [if_neg fresh] at rejected
    split
    next => rfl
    next room =>
      rw [if_neg room] at rejected
      cases recovered : tx.sender crypto with
      | error e => rfl
      | ok sender =>
          simp only [recovered] at rejected ⊢
          split
          next => rfl
          next free => simp [free] at rejected

/-- A transaction is only refused as a duplicate when its hash is taken. -/
theorem mem_of_alreadyExists {tx : SignedTransaction} {text : String}
    (refused : (addTransaction crypto tx pool).1 = .error (.alreadyExists text))
    : tx.hash ∈ pool.byHash := by
  by_contra fresh
  unfold addTransaction at refused
  rw [if_neg fresh] at refused
  by_cases full : pool.byHash.keys.card ≥ pool.maxSize
  · simp [full] at refused
  · cases recovered : tx.sender crypto with
    | error e => simp [full, recovered] at refused
    | ok sender =>
        by_cases used : tx.transaction.nonce ∈ (pool.queueOf sender).txs
        · simp [full, recovered, used] at refused
        · simp [full, recovered, used] at refused

theorem mem_queueOf_add {tx : SignedTransaction} {sender other : Address}
    {byHash : FinMap B256 SignedTransaction} {nonce : Nat} {queued : SignedTransaction}
    (found
      : (queueOf
            { pool with
              byHash
              bySender := pool.bySender.insert sender
                { txs := (pool.queueOf sender).txs.insert tx.transaction.nonce tx } }
            other).txs.lookup nonce
        = some queued)
    : other = sender ∧ nonce = tx.transaction.nonce ∧ queued = tx
      ∨ (pool.queueOf other).txs.lookup nonce = some queued := by
  rw [queueOf_add] at found
  split at found
  next here => exact Or.inl ⟨here.1, here.2, (Option.some.inj found).symm⟩
  next => exact Or.inr found

/-- An addition keeps the pool consistent: the checked keys were free in both indexes. -/
theorem Consistent.addTransaction (consistent : pool.Consistent crypto maxSize)
    (tx : SignedTransaction)
    : (TransactionPool.addTransaction crypto tx pool).2.Consistent crypto maxSize := by
  rcases call : TransactionPool.addTransaction crypto tx pool with ⟨e | hash, after⟩
  · have same := addTransaction_error (congrArg Prod.fst call)
    rw [call] at same
    rwa [same]
  · obtain ⟨sender, fresh, room, recovered, free, _, rfl⟩ := addTransaction_ok_iff.mp call
    refine ⟨⟨?_, ?_⟩, ?_, consistent.limit, ?_⟩
    · intro hash' other found
      rw [FinMap.lookup_insert_eq] at found
      split at found
      next same =>
        obtain rfl := Option.some.inj found
        refine ⟨same.symm, sender, recovered, ?_⟩
        rw [queueOf_add, if_pos ⟨rfl, rfl⟩]
      next =>
        obtain ⟨key, owner, signed, waiting⟩ := consistent.same.hashed hash' other found
        refine ⟨key, owner, signed, ?_⟩
        rw [queueOf_add, if_neg, waiting]
        rintro ⟨sameOwner, sameNonce⟩
        rw [sameOwner, sameNonce] at waiting
        exact free (Finmap.mem_of_lookup_eq_some waiting)
    · intro owner nonce other found
      rcases mem_queueOf_add found with ⟨rfl, rfl, rfl⟩ | old
      · exact ⟨recovered, rfl, Finmap.lookup_insert _⟩
      · obtain ⟨signed, key, stored⟩ := consistent.same.queued owner nonce other old
        refine ⟨signed, key, ?_⟩
        rw [FinMap.lookup_insert_eq, if_neg, stored]
        intro same
        rw [same] at stored
        exact fresh (Finmap.mem_of_lookup_eq_some stored)
    · intro owner queue found
      rw [FinMap.lookup_insert_eq] at found
      split at found
      next =>
        obtain rfl := Option.some.inj found
        rw [FinMap.keys_insert]
        exact Finset.card_ne_zero_of_mem (Finset.mem_insert_self _ _)
      next => exact consistent.nonempty owner queue found
    · rw [← consistent.limit, FinMap.keys_insert]
      exact Nat.le_trans (Finset.card_insert_le _ _) room

-----------------------------------------------------------------------------------------
-- Removals
-----------------------------------------------------------------------------------------

/-- Dequeuing leaves no empty queue behind. -/
theorem nonempty_dequeue
    (nonempty
      : ∀ sender queue, pool.bySender.lookup sender = some queue → queue.txs.keys.card ≠ 0)
    (sender : Address) (nonce : Nat)
    : ∀ other queue, (pool.dequeue sender nonce).bySender.lookup other = some queue →
        queue.txs.keys.card ≠ 0 := by
  intro other queue found
  unfold dequeue at found
  cases waiting : pool.bySender.lookup sender with
  | none =>
      simp only [waiting] at found
      exact nonempty other queue found
  | some known =>
      simp only [waiting] at found
      split at found
      next =>
        simp only [FinMap.lookup_erase_eq] at found
        split at found
        next => simp at found
        next => exact nonempty other queue found
      next more =>
        simp only [FinMap.lookup_insert_eq] at found
        split at found
        next =>
          obtain rfl := Option.some.inj found
          exact more
        next => exact nonempty other queue found

theorem dequeue_frame (sender : Address) (nonce : Nat) (pool : TransactionPool)
    : (pool.dequeue sender nonce).byHash = pool.byHash
      ∧ (pool.dequeue sender nonce).maxSize = pool.maxSize := by
  unfold dequeue
  split
  next => exact ⟨rfl, rfl⟩
  next =>
    simp only
    split <;> exact ⟨rfl, rfl⟩

/-- The pool after a transaction has left both indexes. -/
def without (tx : SignedTransaction) (sender : Address) (pool : TransactionPool)
    : TransactionPool :=
  dequeue sender tx.transaction.nonce { pool with byHash := pool.byHash.erase tx.hash }

/-- A removal from a pool whose indexes agree finds nothing, or takes the transaction out of
both.
-/
theorem SameTransactions.removeTransaction_cases (same : pool.SameTransactions crypto)
    (hash : B256)
    : removeTransaction crypto hash pool = (none, pool)
      ∨ ∃ tx sender,
          pool.byHash.lookup hash = some tx
          ∧ tx.hash = hash
          ∧ tx.sender crypto = .ok sender
          ∧ removeTransaction crypto hash pool = (some tx, pool.without tx sender) := by
  unfold removeTransaction
  cases known : pool.byHash.lookup hash with
  | none => exact Or.inl rfl
  | some tx =>
      obtain ⟨key, sender, signed, _⟩ := same.hashed hash tx known
      refine Or.inr ⟨tx, sender, rfl, key, signed, ?_⟩
      simp only [signed, without, key]

theorem lookup_without (tx : SignedTransaction) (sender other : Address) (nonce : Nat)
    (pool : TransactionPool)
    : ((pool.without tx sender).queueOf other).txs.lookup nonce
      = if other = sender ∧ nonce = tx.transaction.nonce then none
        else (pool.queueOf other).txs.lookup nonce :=
  lookup_dequeue sender other tx.transaction.nonce nonce _

/-- A removal keeps the pool consistent: what leaves one index leaves the other. -/
theorem Consistent.removeTransaction (consistent : pool.Consistent crypto maxSize)
    (hash : B256)
    : (TransactionPool.removeTransaction crypto hash pool).2.Consistent crypto maxSize := by
  rcases consistent.same.removeTransaction_cases hash
    with nothing | ⟨tx, sender, known, key, signed, removed⟩
  · rwa [nothing]
  · rw [removed]
    have byHash : (pool.without tx sender).byHash = pool.byHash.erase tx.hash :=
      (dequeue_frame sender tx.transaction.nonce _).1
    have limit : (pool.without tx sender).maxSize = pool.maxSize :=
      (dequeue_frame sender tx.transaction.nonce _).2
    refine ⟨⟨?_, ?_⟩, ?_, limit.trans consistent.limit, ?_⟩
    · intro hash' other found
      rw [byHash, FinMap.lookup_erase_eq] at found
      split at found
      next => simp at found
      next apart =>
        obtain ⟨key', owner, signed', waiting⟩ := consistent.same.hashed hash' other found
        refine ⟨key', owner, signed', ?_⟩
        rw [lookup_without, if_neg, waiting]
        rintro ⟨sameOwner, sameNonce⟩
        -- one slot holds one transaction, and its hash is the one that was removed
        obtain ⟨_, own, ownSigned, ownWaiting⟩ := consistent.same.hashed hash tx known
        obtain rfl := Except.ok.inj (signed.symm.trans ownSigned)
        rw [sameOwner, sameNonce, ownWaiting] at waiting
        obtain rfl := Option.some.inj waiting
        exact apart key'.symm
    · intro owner nonce other found
      rw [lookup_without] at found
      split at found
      next => simp at found
      next apart =>
        obtain ⟨signed', key', stored⟩ := consistent.same.queued owner nonce other found
        refine ⟨signed', key', ?_⟩
        rw [byHash, FinMap.lookup_erase_eq, if_neg, stored]
        intro sameHash
        rw [sameHash, key, known] at stored
        obtain rfl := Option.some.inj stored
        exact apart ⟨Except.ok.inj (signed'.symm.trans signed), key'.symm⟩
    · exact @nonempty_dequeue { pool with byHash := pool.byHash.erase tx.hash }
        consistent.nonempty sender tx.transaction.nonce
    · rw [byHash, Finmap.keys_erase]
      exact Nat.le_trans (Finset.card_erase_le) consistent.size

theorem Consistent.removeIncluded (consistent : pool.Consistent crypto maxSize)
    (txHashes : List B256)
    : (TransactionPool.removeIncluded crypto txHashes pool).Consistent crypto maxSize := by
  induction txHashes generalizing pool with
  | nil => exact consistent
  | cons hash rest ih => exact ih (consistent.removeTransaction hash)

/-- A removal takes one hash out of the index, known or not. -/
theorem lookup_byHash_removeTransaction (hash key : B256) (pool : TransactionPool)
    : (TransactionPool.removeTransaction crypto hash pool).2.byHash.lookup key
      = if key = hash then none else pool.byHash.lookup key := by
  unfold TransactionPool.removeTransaction
  cases known : pool.byHash.lookup hash with
  | none =>
      simp only
      split
      next same => rw [same, known]
      next => rfl
  | some tx =>
      cases recovered : tx.sender crypto with
      | error e =>
          simp only [recovered]
          exact FinMap.lookup_erase_eq pool.byHash hash key
      | ok sender =>
          simp only [recovered, (dequeue_frame sender tx.transaction.nonce _).1]
          exact FinMap.lookup_erase_eq pool.byHash hash key

/-- Inclusion takes the listed hashes out of the index, by induction on the list. -/
theorem lookup_byHash_removeIncluded (txHashes : List B256) (key : B256)
    (pool : TransactionPool)
    : (TransactionPool.removeIncluded crypto txHashes pool).byHash.lookup key
      = if key ∈ txHashes then none else pool.byHash.lookup key := by
  induction txHashes generalizing pool with
  | nil => rfl
  | cons hash rest ih =>
      have first := @lookup_byHash_removeTransaction crypto hash key pool
      change (TransactionPool.removeIncluded crypto rest _).byHash.lookup key = _
      rw [ih, first]
      by_cases here : key = hash
      · simp [here]
      · simp [here]

-----------------------------------------------------------------------------------------
-- What the pool holds
-----------------------------------------------------------------------------------------

/-- Whatever the pool holds satisfies `p`, and is found under the hash it carries. -/
structure Holds (p : SignedTransaction → Prop) (pool : TransactionPool) : Prop where
  hashed : ∀ hash tx, pool.byHash.lookup hash = some tx → tx.hash = hash ∧ p tx
  queued : ∀ sender nonce tx, (pool.queueOf sender).txs.lookup nonce = some tx → p tx

theorem holds_withMaxSize (p : SignedTransaction → Prop) (maxSize : Nat)
    : (withMaxSize maxSize).Holds p := by
  constructor
  · intro hash tx found
    simp [withMaxSize] at found
  · intro sender nonce tx found
    simp [withMaxSize, queueOf, SenderQueue.empty] at found

theorem Holds.addTransaction {p : SignedTransaction → Prop} (holds : pool.Holds p)
    {tx : SignedTransaction} (isP : p tx)
    : (TransactionPool.addTransaction crypto tx pool).2.Holds p := by
  rcases call : TransactionPool.addTransaction crypto tx pool with ⟨_ | hash, after⟩
  · rw [← call, addTransaction_error (congrArg Prod.fst call)]
    exact holds
  · obtain ⟨sender, _, _, _, _, _, rfl⟩ := addTransaction_ok_iff.mp call
    constructor
    · intro key other found
      rw [FinMap.lookup_insert_eq] at found
      split at found
      next here =>
        obtain rfl := Option.some.inj found
        exact ⟨here.symm, isP⟩
      next => exact holds.hashed key other found
    · intro owner nonce other found
      rcases mem_queueOf_add found with ⟨_, _, rfl⟩ | before
      · exact isP
      · exact holds.queued owner nonce other before

theorem Holds.addTransactions {p : SignedTransaction → Prop} (holds : pool.Holds p)
    {txs : List SignedTransaction} (all : ∀ tx ∈ txs, p tx)
    : (txs.foldl (fun pool tx => (TransactionPool.addTransaction crypto tx pool).2) pool).Holds
        p := by
  induction txs generalizing pool with
  | nil => exact holds
  | cons tx rest ih =>
      obtain ⟨first, later⟩ := List.forall_mem_cons.mp all
      exact ih (holds.addTransaction first) later

theorem Holds.removeTransaction {p : SignedTransaction → Prop} (holds : pool.Holds p)
    (hash : B256)
    : (TransactionPool.removeTransaction crypto hash pool).2.Holds p := by
  constructor
  · intro key tx found
    rw [lookup_byHash_removeTransaction] at found
    split at found
    next => simp at found
    next => exact holds.hashed key tx found
  · intro sender nonce tx found
    exact holds.queued sender nonce tx (lookup_removeTransaction found)

theorem Holds.removeIncluded {p : SignedTransaction → Prop} (holds : pool.Holds p)
    (txHashes : List B256)
    : (TransactionPool.removeIncluded crypto txHashes pool).Holds p := by
  induction txHashes generalizing pool with
  | nil => exact holds
  | cons hash rest ih => exact ih (holds.removeTransaction hash)

-----------------------------------------------------------------------------------------
-- Runs
-----------------------------------------------------------------------------------------

end TransactionPool

/-- The operations that change the pool. -/
inductive PoolOp
  | addTransaction (tx : SignedTransaction)
  | removeTransaction (hash : B256)
  | removeIncluded (txHashes : List B256)
  | clear

/-- The pool after an operation, whether it succeeds or not. -/
def PoolOp.run (crypto : Crypto) (pool : TransactionPool) : PoolOp → TransactionPool
  | .addTransaction tx => (pool.addTransaction crypto tx).2
  | .removeTransaction hash => (pool.removeTransaction crypto hash).2
  | .removeIncluded txHashes => pool.removeIncluded crypto txHashes
  | .clear => pool.clear

namespace TransactionPool

variable {crypto : Crypto} {maxSize : Nat} {pool : TransactionPool}

theorem Consistent.run (consistent : pool.Consistent crypto maxSize) (op : PoolOp)
    : (op.run crypto pool).Consistent crypto maxSize := by
  cases op with
  | addTransaction tx => exact consistent.addTransaction tx
  | removeTransaction hash => exact consistent.removeTransaction hash
  | removeIncluded txHashes => exact consistent.removeIncluded txHashes
  | clear => exact consistent.clear

/-- Operations on a consistent pool keep it consistent, by induction on the operations. -/
theorem Consistent.foldl_run (consistent : pool.Consistent crypto maxSize) (ops : List PoolOp)
    : (ops.foldl (PoolOp.run crypto) pool).Consistent crypto maxSize := by
  induction ops generalizing pool with
  | nil => exact consistent
  | cons op rest ih => exact ih (consistent.run op)

theorem Consistent.filed (consistent : pool.Consistent crypto maxSize) : pool.Filed crypto := by
  intro sender nonce tx found
  obtain ⟨recovered, isNonce, _⟩ := consistent.same.queued sender nonce tx found
  exact ⟨recovered, isNonce⟩

/-- From an empty pool of any size, every sequence of operations leads to a consistent pool,
which a rejected addition leaves as it is.
-/
theorem consistent_run (crypto : Crypto) (maxSize : Nat) (ops : List PoolOp)
    : let pool := ops.foldl (PoolOp.run crypto) (withMaxSize maxSize)
      pool.Consistent crypto maxSize
        ∧ ∀ tx e, (pool.addTransaction crypto tx).1 = .error e →
            (pool.addTransaction crypto tx).2 = pool :=
  ⟨(consistent_withMaxSize crypto maxSize).foldl_run ops, fun _ _ => addTransaction_error⟩

end TransactionPool

end VeloChain
