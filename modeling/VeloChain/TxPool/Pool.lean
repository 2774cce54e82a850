import VeloChain.Lib.HashMapOrder
import VeloChain.Primitives.Crypto

/-! The transaction pool: transactions by hash, and by sender and nonce.
The two indexes are hash maps; the queue of one sender is ordered by nonce.
-/

namespace VeloChain

inductive TxPoolError
  | alreadyExists (hash : String)
  | poolFull (capacity current : Nat)
  | invalidTransaction (message : String)
  deriving DecidableEq

instance : ToString TxPoolError where
  toString
    | .alreadyExists hash => s!"Transaction already in pool: {hash}"
    | .poolFull capacity current => s!"Pool is full: capacity={capacity}, current={current}"
    | .invalidTransaction message => s!"Invalid transaction: {message}"

def defaultMaxPoolSize : Nat := 10000

/-- Per-sender transaction queue, ordered by nonce. -/
structure SenderQueue where
  txs : FinMap Nat SignedTransaction

/-- Pending and queued transactions. -/
structure TransactionPool where
  byHash : FinMap B256 SignedTransaction
  bySender : FinMap Address SenderQueue
  maxSize : Nat

namespace SenderQueue

def empty : SenderQueue := { txs := ∅ }

/-- Nonces in ascending order. -/
def nonces (queue : SenderQueue) : List Nat :=
  FinMap.sortedKeys id Function.injective_id queue.txs

/-- The leading nonces without a gap, the first of them equal to `expected` if it is set. -/
def contiguous : Option Nat → List Nat → List Nat
  | _, [] => []
  | expected, nonce :: rest =>
      if expected.getD nonce = nonce then nonce :: contiguous (some (nonce + 1)) rest
      else []

/-- The transactions with contiguous nonces from the lowest one on. -/
def pending (queue : SenderQueue) : List SignedTransaction :=
  (contiguous none queue.nonces).filterMap (fun nonce => queue.txs.lookup nonce)

end SenderQueue

namespace TransactionPool

/-- Create a new transaction pool with custom max size. -/
def withMaxSize (maxSize : Nat) : TransactionPool := { byHash := ∅, bySender := ∅, maxSize }

/-- Create a new transaction pool. -/
def new : TransactionPool := withMaxSize defaultMaxPoolSize

variable (crypto : Crypto)

/-- The transactions of one sender that wait in the pool. -/
def queueOf (pool : TransactionPool) (sender : Address) : SenderQueue :=
  (pool.bySender.lookup sender).getD .empty

/-- Add a transaction to the pool. -/
def addTransaction (tx : SignedTransaction) (pool : TransactionPool)
    : Except TxPoolError B256 × TransactionPool :=
  if tx.hash ∈ pool.byHash then (.error (.alreadyExists (displayHash tx.hash)), pool)
  else if pool.byHash.keys.card ≥ pool.maxSize then
    (.error (.poolFull pool.maxSize pool.byHash.keys.card), pool)
  else
    match tx.sender crypto with
    | .error e => (.error (.invalidTransaction s!"Invalid signature: {e}"), pool)
    | .ok sender =>
        let nonce := tx.transaction.nonce
        if nonce ∈ (pool.queueOf sender).txs then
          (.error (.invalidTransaction
            s!"Nonce {nonce} already used by sender {debugAddress sender}"), pool)
        else
          (.ok tx.hash,
            { pool with
              byHash := pool.byHash.insert tx.hash tx
              bySender := pool.bySender.insert sender
                { txs := (pool.queueOf sender).txs.insert nonce tx } })

/-- Remove a nonce from the queue of a sender, and the queue when it becomes empty. -/
def dequeue (sender : Address) (nonce : Nat) (pool : TransactionPool) : TransactionPool :=
  match pool.bySender.lookup sender with
  | none => pool
  | some queue =>
      let txs := queue.txs.erase nonce
      if txs.keys.card = 0 then { pool with bySender := pool.bySender.erase sender }
      else { pool with bySender := pool.bySender.insert sender { txs } }

/-- Remove a transaction from the pool by hash. -/
def removeTransaction (hash : B256) (pool : TransactionPool)
    : Option SignedTransaction × TransactionPool :=
  match pool.byHash.lookup hash with
  | none => (none, pool)
  | some tx =>
      let pool := { pool with byHash := pool.byHash.erase hash }
      match tx.sender crypto with
      | .error _ => (some tx, pool)
      | .ok sender => (some tx, pool.dequeue sender tx.transaction.nonce)

/-- Remove transactions that have been included in a block. -/
def removeIncluded (txHashes : List B256) (pool : TransactionPool) : TransactionPool :=
  txHashes.foldl (fun pool hash => (removeTransaction crypto hash pool).2) pool

/-- Clear all transactions from the pool. -/
def clear (pool : TransactionPool) : TransactionPool := { pool with byHash := ∅, bySender := ∅ }

/-- The price a transaction offers for its gas. -/
def offeredPrice (tx : SignedTransaction) : Nat := (tx.transaction.gasPrice.getD 0).toNat

/-- Gas price descending, then nonce ascending. -/
def precedes (left right : SignedTransaction) : Prop :=
  offeredPrice right < offeredPrice left
  ∨ (offeredPrice left = offeredPrice right
      ∧ left.transaction.nonce ≤ right.transaction.nonce)

instance : DecidableRel precedes := fun _ _ => inferInstanceAs (Decidable (_ ∨ _))

/-- Get pending transactions for block inclusion, senders in the order of the walk before
the stable sort.
-/
def getPending (order : IterationOrder Address SenderQueue) (maxCount : Nat)
    (pool : TransactionPool) : List SignedTransaction :=
  let senders := order.keys pool.bySender
  let all := senders.flatMap (fun sender => (pool.queueOf sender).pending)
  (all.insertionSort precedes).take maxCount

/-- Every queued transaction stands under the sender it recovers to and under its nonce. -/
def Filed (pool : TransactionPool) : Prop :=
  ∀ sender nonce tx, (pool.queueOf sender).txs.lookup nonce = some tx
    → tx.sender crypto = .ok sender ∧ tx.transaction.nonce = nonce

variable {crypto}

theorem filed_withMaxSize (maxSize : Nat) : (withMaxSize maxSize).Filed crypto := by
  intro sender nonce tx found
  simp [withMaxSize, queueOf, SenderQueue.empty] at found

theorem queueOf_insert (pool : TransactionPool) (sender other : Address) (queue : SenderQueue)
    : queueOf { pool with bySender := pool.bySender.insert sender queue } other
      = if other = sender then queue else pool.queueOf other := by
  unfold queueOf
  simp only [FinMap.lookup_insert_eq]
  split <;> rfl

theorem queueOf_add (pool : TransactionPool) (tx : SignedTransaction) (sender other : Address)
    (byHash : FinMap B256 SignedTransaction) (nonce : Nat)
    : (queueOf
          { pool with
            byHash
            bySender := pool.bySender.insert sender
              { txs := (pool.queueOf sender).txs.insert tx.transaction.nonce tx } }
          other).txs.lookup nonce
      = if other = sender ∧ nonce = tx.transaction.nonce then some tx
        else (pool.queueOf other).txs.lookup nonce := by
  have queue := queueOf_insert { pool with byHash } sender other
    { txs := (pool.queueOf sender).txs.insert tx.transaction.nonce tx }
  rw [queue]
  by_cases same : other = sender
  · subst same
    simp only [if_true, true_and, FinMap.lookup_insert_eq]
  · simp only [same, false_and, if_false]
    rfl

/-- An addition leaves the pool as it is, or files the transaction under its sender. -/
theorem addTransaction_cases (tx : SignedTransaction) (pool : TransactionPool)
    : (addTransaction crypto tx pool).2 = pool
      ∨ ∃ sender,
          tx.sender crypto = .ok sender
          ∧ ∀ other nonce,
              ((addTransaction crypto tx pool).2.queueOf other).txs.lookup nonce
                = if other = sender ∧ nonce = tx.transaction.nonce then some tx
                  else (pool.queueOf other).txs.lookup nonce := by
  unfold addTransaction
  split
  next => exact Or.inl rfl
  next =>
    split
    next => exact Or.inl rfl
    next =>
      cases recovered : tx.sender crypto with
      | error e => exact Or.inl rfl
      | ok sender =>
          simp only
          split
          next => exact Or.inl rfl
          next =>
            exact Or.inr ⟨sender, rfl, fun other nonce =>
              queueOf_add pool tx sender other (pool.byHash.insert tx.hash tx) nonce⟩

/-- Dequeuing removes one entry, whether its queue goes or stays. -/
theorem lookup_dequeue (sender other : Address) (nonce nonce' : Nat) (pool : TransactionPool)
    : ((pool.dequeue sender nonce).queueOf other).txs.lookup nonce'
      = if other = sender ∧ nonce' = nonce then none
        else (pool.queueOf other).txs.lookup nonce' := by
  unfold dequeue
  cases waiting : pool.bySender.lookup sender with
  | none =>
      by_cases same : other = sender
      · subst same
        simp only [queueOf, waiting, Option.getD_none, SenderQueue.empty, Finmap.lookup_empty,
          ite_self]
      · simp only [same, false_and, if_false]
  | some queue =>
      have own : pool.queueOf sender = queue := by
        simp only [queueOf, waiting, Option.getD_some]
      have erased := FinMap.lookup_erase_eq queue.txs nonce nonce'
      simp only
      split
      next empty =>
        have nothing : (queue.txs.erase nonce).lookup nonce' = none := by
          rw [Finmap.lookup_eq_none, ← Finmap.mem_keys, Finset.card_eq_zero.mp empty]
          exact Finset.notMem_empty nonce'
        by_cases same : other = sender
        · subst same
          simp only [queueOf, FinMap.lookup_erase_eq, if_true, Option.getD_none,
            SenderQueue.empty, Finmap.lookup_empty, true_and]
          rw [erased] at nothing
          split
          next => rfl
          next there =>
            rw [if_neg there, ← own] at nothing
            exact nothing.symm
        · simp only [queueOf, FinMap.lookup_erase_eq, same, if_false, false_and]
      next =>
        rw [queueOf_insert]
        by_cases same : other = sender
        · subst same
          simp only [if_true, true_and, erased, own]
        · simp only [same, if_false, false_and]

/-- A removal only removes entries. -/
theorem lookup_removeTransaction {hash : B256} {other : Address} {nonce : Nat}
    {pool : TransactionPool} {tx : SignedTransaction}
    (found
      : ((removeTransaction crypto hash pool).2.queueOf other).txs.lookup nonce = some tx)
    : (pool.queueOf other).txs.lookup nonce = some tx := by
  unfold removeTransaction at found
  cases present : pool.byHash.lookup hash with
  | none => simpa only [present] using found
  | some removed =>
      cases recovered : removed.sender crypto with
      | error e =>
          simp only [present, recovered] at found
          exact found
      | ok sender =>
          simp only [present, recovered, lookup_dequeue] at found
          split at found
          next => simp at found
          next => exact found

/-- Accepting a transaction files it under its own sender and nonce. -/
theorem Filed.addTransaction {pool : TransactionPool} (filed : pool.Filed crypto)
    (tx : SignedTransaction)
    : (addTransaction crypto tx pool).2.Filed crypto := by
  cases @addTransaction_cases crypto tx pool with
  | inl same => rwa [same]
  | inr added =>
      obtain ⟨sender, recovered, entries⟩ := added
      intro other nonce found lookup
      rw [entries] at lookup
      split at lookup
      next here =>
        obtain ⟨rfl, rfl⟩ := here
        obtain rfl := Option.some.inj lookup
        exact ⟨recovered, rfl⟩
      next => exact filed other nonce found lookup

theorem Filed.addTransactions {pool : TransactionPool} (filed : pool.Filed crypto)
    (txs : List SignedTransaction)
    : (txs.foldl (fun pool tx => (TransactionPool.addTransaction crypto tx pool).2) pool).Filed
        crypto := by
  induction txs generalizing pool with
  | nil => exact filed
  | cons tx rest ih => exact ih (filed.addTransaction tx)

theorem Filed.removeTransaction {pool : TransactionPool} (filed : pool.Filed crypto)
    (hash : B256)
    : (removeTransaction crypto hash pool).2.Filed crypto :=
  fun sender nonce tx found => filed sender nonce tx (lookup_removeTransaction found)

theorem Filed.removeIncluded {pool : TransactionPool} (filed : pool.Filed crypto)
    (txHashes : List B256)
    : (removeIncluded crypto txHashes pool).Filed crypto := by
  induction txHashes generalizing pool with
  | nil => exact filed
  | cons hash rest ih => exact ih (filed.removeTransaction hash)

/-- A pending transaction waits in the queue of some sender. -/
theorem mem_getPending {order : IterationOrder Address SenderQueue} {maxCount : Nat}
    {pool : TransactionPool} {tx : SignedTransaction}
    (member : tx ∈ pool.getPending order maxCount)
    : ∃ sender nonce, (pool.queueOf sender).txs.lookup nonce = some tx := by
  have sorted := List.mem_of_mem_take member
  rw [List.mem_insertionSort] at sorted
  obtain ⟨sender, _, waiting⟩ := List.mem_flatMap.mp sorted
  obtain ⟨nonce, _, found⟩ := List.mem_filterMap.mp waiting
  exact ⟨sender, nonce, found⟩

/-- The sender of a pending transaction of a filed pool can be recovered. -/
theorem Filed.sender_getPending {pool : TransactionPool} (filed : pool.Filed crypto)
    {order : IterationOrder Address SenderQueue} {maxCount : Nat} {tx : SignedTransaction}
    (member : tx ∈ pool.getPending order maxCount)
    : ∃ sender, tx.sender crypto = .ok sender := by
  obtain ⟨sender, nonce, found⟩ := mem_getPending member
  exact ⟨sender, (filed sender nonce tx found).1⟩

end TransactionPool

end VeloChain
