import VeloChain.TxPool.PoolIndex

/-! Slots of the transaction pool: a sender and a nonce.
Adding a transaction to a pool with room leaves its slot filled, by the transaction or by one that
was there before. Additions take nothing out of the pool.
-/

namespace VeloChain

/-- Two transactions of one sender with one nonce. -/
def SignedTransaction.SameSlot (crypto : Crypto) (left right : SignedTransaction) : Prop :=
  left.transaction.nonce = right.transaction.nonce
  ∧ ∃ sender, left.sender crypto = .ok sender ∧ right.sender crypto = .ok sender

namespace TransactionPool

/-- The pool has the transaction, under its hash. -/
def Contains (pool : TransactionPool) (tx : SignedTransaction) : Prop :=
  pool.byHash.lookup tx.hash = some tx

/-- The pool after the transactions are added one after another. -/
def addTransactions (crypto : Crypto) (txs : List SignedTransaction) (pool : TransactionPool)
    : TransactionPool :=
  txs.foldl (fun pool tx => (pool.addTransaction crypto tx).2) pool

variable {crypto : Crypto} {maxSize : Nat} {pool : TransactionPool}

theorem Contains.addTransaction {other : SignedTransaction} (contains : pool.Contains other)
    (tx : SignedTransaction)
    : (pool.addTransaction crypto tx).2.Contains other := by
  rcases call : pool.addTransaction crypto tx with ⟨_ | hash, after⟩
  · rw [← call, addTransaction_error (congrArg Prod.fst call)]
    exact contains
  · obtain ⟨sender, fresh, _, _, _, _, rfl⟩ := addTransaction_ok_iff.mp call
    unfold Contains
    rw [FinMap.lookup_insert_eq, if_neg, contains]
    intro same
    exact fresh (same ▸ Finmap.mem_of_lookup_eq_some contains)

theorem Contains.addTransactions {other : SignedTransaction} (contains : pool.Contains other)
    (txs : List SignedTransaction)
    : (pool.addTransactions crypto txs).Contains other := by
  induction txs generalizing pool with
  | nil => exact contains
  | cons tx rest ih => exact ih (contains.addTransaction tx)

theorem card_addTransaction_le (tx : SignedTransaction) (pool : TransactionPool)
    : (pool.addTransaction crypto tx).2.byHash.keys.card ≤ pool.byHash.keys.card + 1 := by
  rcases call : pool.addTransaction crypto tx with ⟨_ | hash, after⟩
  · rw [← call, addTransaction_error (congrArg Prod.fst call)]
    exact Nat.le_succ _
  · obtain ⟨sender, _, _, _, _, _, rfl⟩ := addTransaction_ok_iff.mp call
    rw [FinMap.keys_insert]
    exact Finset.card_insert_le _ _

/-- After an addition with room, the slot of the transaction is filled: a hash is only taken by
the transaction itself, and a nonce by another one of the sender.
-/
theorem Consistent.exists_sameSlot (consistent : pool.Consistent crypto maxSize)
    {p : SignedTransaction → Prop}
    (apart : ∀ tx tx', p tx → p tx' → tx.hash = tx'.hash → tx = tx')
    (holds : pool.Holds p) {tx : SignedTransaction} (isP : p tx) {sender : Address}
    (recovered : tx.sender crypto = .ok sender) (room : pool.byHash.keys.card < maxSize)
    : ∃ other, (pool.addTransaction crypto tx).2.Contains other ∧ other.SameSlot crypto tx := by
  by_cases known : tx.hash ∈ pool.byHash
  · obtain ⟨other, found⟩ := Finmap.mem_iff.mp known
    obtain ⟨sameHash, isPooled⟩ := holds.hashed tx.hash other found
    obtain rfl := apart other tx isPooled isP sameHash
    exact ⟨other, Contains.addTransaction found other, rfl, sender, recovered, recovered⟩
  · by_cases used : tx.transaction.nonce ∈ (pool.queueOf sender).txs
    · obtain ⟨other, waits⟩ := Finmap.mem_iff.mp used
      obtain ⟨signed, nonce, stored⟩ := consistent.same.queued sender _ other waits
      exact ⟨other, Contains.addTransaction stored tx, nonce, sender, signed, recovered⟩
    · have added := addTransaction_ok_iff.mpr
        ⟨sender, known, consistent.limit ▸ room, recovered, used, rfl, rfl⟩
      rw [added]
      exact ⟨tx, Finmap.lookup_insert _, rfl, sender, recovered, recovered⟩

theorem Consistent.addTransactions (consistent : pool.Consistent crypto maxSize)
    (txs : List SignedTransaction)
    : (pool.addTransactions crypto txs).Consistent crypto maxSize := by
  induction txs generalizing pool with
  | nil => exact consistent
  | cons tx rest ih => exact ih (consistent.addTransaction tx)

/-- After additions with room for all of them, every slot is filled, by induction on the
transactions.
-/
theorem Consistent.exists_sameSlots (consistent : pool.Consistent crypto maxSize)
    {p : SignedTransaction → Prop}
    (apart : ∀ tx tx', p tx → p tx' → tx.hash = tx'.hash → tx = tx')
    (holds : pool.Holds p) {txs : List SignedTransaction} (all : ∀ tx ∈ txs, p tx)
    (recovers : ∀ tx ∈ txs, ∃ sender, tx.sender crypto = .ok sender)
    (room : pool.byHash.keys.card + txs.length ≤ maxSize)
    : ∀ tx ∈ txs,
        ∃ other, (pool.addTransactions crypto txs).Contains other ∧ other.SameSlot crypto tx := by
  induction txs generalizing pool with
  | nil => simp
  | cons tx rest ih =>
      obtain ⟨isP, later⟩ := List.forall_mem_cons.mp all
      obtain ⟨⟨sender, recovered⟩, recoversLater⟩ := List.forall_mem_cons.mp recovers
      rw [List.length_cons] at room
      refine List.forall_mem_cons.mpr ⟨?_, ?_⟩
      · obtain ⟨other, contains, sameSlot⟩ :=
          consistent.exists_sameSlot apart holds isP recovered (by omega)
        exact ⟨other, contains.addTransactions rest, sameSlot⟩
      · have grown := @card_addTransaction_le crypto tx pool
        exact ih (consistent.addTransaction tx) (holds.addTransaction isP) later recoversLater
          (Nat.le_trans (Nat.add_le_add_right grown rest.length) (by omega))

/-- What is included is in the pool no longer, and the rest stays. -/
theorem contains_removeIncluded {txHashes : List B256} {tx : SignedTransaction}
    : (pool.removeIncluded crypto txHashes).Contains tx
      ↔ tx.hash ∉ txHashes ∧ pool.Contains tx := by
  unfold Contains
  rw [lookup_byHash_removeIncluded]
  split
  next listed => simp [listed]
  next unlisted => simp [unlisted]

end TransactionPool

end VeloChain
