import VeloChain.Lib.Interleaving
import VeloChain.TxPool.PoolIndex

/-! Calls of the transaction pool that run at the same time.
Every access to one of the two maps is one step; between two steps of a call other calls may
run. What a call has checked can be outdated when it acts.
-/

namespace VeloChain

open Interleaving

/-- Where a call stands: before its next access to the pool, or returned. -/
inductive PoolCall
  | add (tx : SignedTransaction)
  | addCapacity (tx : SignedTransaction)
  | addRejected (tx : SignedTransaction)
  | addNonce (tx : SignedTransaction) (sender : Address)
  | addToHash (tx : SignedTransaction) (sender : Address)
  | addToQueue (tx : SignedTransaction) (sender : Address)
  | added (tx : SignedTransaction) (result : Except TxPoolError B256)
  | remove (hash : B256)
  | removeFromQueue (tx : SignedTransaction) (sender : Address)
  | dropQueue (tx : SignedTransaction) (sender : Address)
  | removed (result : Option SignedTransaction)
  deriving DecidableEq

namespace PoolCall

variable (crypto : Crypto)

/-- The next access of a call: a lookup, an insertion or a removal in one of the maps, with
what the call does before the access after it.
-/
def act : PoolCall → TransactionPool → PoolCall × TransactionPool
  | .add tx, pool =>
      if tx.hash ∈ pool.byHash then
        (.added tx (.error (.alreadyExists (displayHash tx.hash))), pool)
      else (.addCapacity tx, pool)
  | .addCapacity tx, pool =>
      if pool.byHash.keys.card ≥ pool.maxSize then (.addRejected tx, pool)
      else
        match tx.sender crypto with
        | .error e => (.added tx (.error (.invalidTransaction s!"Invalid signature: {e}")), pool)
        | .ok sender => (.addNonce tx sender, pool)
  -- the error reports the size of the pool at a second look
  | .addRejected tx, pool =>
      (.added tx (.error (.poolFull pool.maxSize pool.byHash.keys.card)), pool)
  | .addNonce tx sender, pool =>
      let nonce := tx.transaction.nonce
      if nonce ∈ (pool.queueOf sender).txs then
        (.added tx (.error (.invalidTransaction
          s!"Nonce {nonce} already used by sender {debugAddress sender}")), pool)
      else (.addToHash tx sender, pool)
  | .addToHash tx sender, pool =>
      (.addToQueue tx sender, { pool with byHash := pool.byHash.insert tx.hash tx })
  | .addToQueue tx sender, pool =>
      (.added tx (.ok tx.hash),
        { pool with
          bySender := pool.bySender.insert sender
            { txs := (pool.queueOf sender).txs.insert tx.transaction.nonce tx } })
  | .remove hash, pool =>
      match pool.byHash.lookup hash with
      | none => (.removed none, pool)
      | some tx =>
          let pool := { pool with byHash := pool.byHash.erase hash }
          match tx.sender crypto with
          | .error _ => (.removed (some tx), pool)
          | .ok sender => (.removeFromQueue tx sender, pool)
  | .removeFromQueue tx sender, pool =>
      match pool.bySender.lookup sender with
      | none => (.removed (some tx), pool)
      | some queue =>
          let txs := queue.txs.erase tx.transaction.nonce
          let pool := { pool with bySender := pool.bySender.insert sender { txs } }
          -- the guard of the queue is dropped before the queue is removed
          if txs.keys.card = 0 then (.dropQueue tx sender, pool)
          else (.removed (some tx), pool)
  | .dropQueue tx sender, pool =>
      (.removed (some tx), { pool with bySender := pool.bySender.erase sender })
  | .added tx result, pool => (.added tx result, pool)
  | .removed result, pool => (.removed result, pool)

/-- A number of accesses of one call with no other call in between. -/
def alone : Nat → PoolCall → TransactionPool → PoolCall × TransactionPool
  | 0, call, pool => (call, pool)
  | steps + 1, call, pool =>
      let (call, pool) := call.act crypto pool
      alone steps call pool

/-- An addition that is left alone is the addition of the sequential pool. -/
theorem alone_add (tx : SignedTransaction) (pool : TransactionPool)
    : alone crypto 5 (.add tx) pool
      = (.added tx (pool.addTransaction crypto tx).1, (pool.addTransaction crypto tx).2) := by
  unfold TransactionPool.addTransaction
  by_cases known : tx.hash ∈ pool.byHash
  · simp only [alone, act, known, if_true]
  · by_cases full : pool.byHash.keys.card ≥ pool.maxSize
    · simp only [alone, act, known, full, if_true, if_false]
    · cases recovered : tx.sender crypto with
      | error e => simp only [alone, act, known, full, if_false, recovered]
      | ok sender =>
          by_cases used : tx.transaction.nonce ∈ (pool.queueOf sender).txs
          · simp only [alone, act, known, full, if_false, recovered, used, if_true]
          · simp only [alone, act, known, full, if_false, recovered, used]
            rfl

/-- A removal that is left alone is the removal of the sequential pool. -/
theorem alone_remove (hash : B256) (pool : TransactionPool)
    : alone crypto 3 (.remove hash) pool
      = (.removed (pool.removeTransaction crypto hash).1,
          (pool.removeTransaction crypto hash).2) := by
  unfold TransactionPool.removeTransaction
  cases known : pool.byHash.lookup hash with
  | none => simp only [alone, act, known]
  | some tx =>
      cases recovered : tx.sender crypto with
      | error e => simp only [alone, act, known, recovered]
      | ok sender =>
          unfold TransactionPool.dequeue
          cases waiting : pool.bySender.lookup sender with
          | none => simp only [alone, act, known, recovered, waiting]
          | some queue =>
              by_cases last : (queue.txs.erase tx.transaction.nonce).keys.card = 0
              · simp only [alone, act, known, recovered, waiting, last, if_true,
                  FinMap.erase_insert]
              · simp only [alone, act, known, recovered, waiting, last, if_false]

/-- The call has taken the transaction out of the index by hash. -/
def Took (tx : SignedTransaction) (call : PoolCall) : Prop :=
  (∃ sender, call = .removeFromQueue tx sender ∨ call = .dropQueue tx sender)
  ∨ call = .removed (some tx)

/-- The call has put the transaction into the index by hash. -/
def Put (tx : SignedTransaction) (call : PoolCall) : Prop :=
  (∃ sender, call = .addToQueue tx sender) ∨ ∃ hash, call = .added tx (.ok hash)

/-- The sender a call goes on with is the one it has recovered. -/
def Signed : PoolCall → Prop
  | .addNonce tx sender | .addToHash tx sender | .addToQueue tx sender
  | .removeFromQueue tx sender | .dropQueue tx sender => tx.sender crypto = .ok sender
  | _ => True

/-- The call has not begun. -/
def Fresh : PoolCall → Prop
  | .add _ | .remove _ => True
  | _ => False

/-- The call has returned. -/
def Returned : PoolCall → Prop
  | .added _ _ | .removed _ => True
  | _ => False

end PoolCall

namespace TransactionPool

/-- The hash of a transaction leads to no other transaction. -/
def KeyFree (pool : TransactionPool) (tx : SignedTransaction) : Prop :=
  pool.byHash.lookup tx.hash = none ∨ pool.byHash.lookup tx.hash = some tx

/-- The place of a transaction in the queue of a sender holds no other transaction. -/
def SlotFree (pool : TransactionPool) (tx : SignedTransaction) (sender : Address) : Prop :=
  (pool.queueOf sender).txs.lookup tx.transaction.nonce = none
  ∨ (pool.queueOf sender).txs.lookup tx.transaction.nonce = some tx

theorem KeyFree.eq {pool : TransactionPool} {tx other : SignedTransaction}
    (free : pool.KeyFree tx) (stored : pool.byHash.lookup tx.hash = some other)
    : other = tx := by
  rcases free with none | own
  · simp [none] at stored
  · exact Option.some.inj (stored.symm.trans own)

theorem SlotFree.eq {pool : TransactionPool} {tx other : SignedTransaction} {sender : Address}
    (free : pool.SlotFree tx sender)
    (waiting : (pool.queueOf sender).txs.lookup tx.transaction.nonce = some other)
    : other = tx := by
  rcases free with none | own
  · simp [none] at waiting
  · exact Option.some.inj (waiting.symm.trans own)

theorem queueOf_erase {pool : TransactionPool} {sender : Address} {queue : SenderQueue}
    (waiting : pool.bySender.lookup sender = some queue) (nonce : Nat) (other : Address)
    (nonce' : Nat)
    : (queueOf
          { pool with
            bySender := pool.bySender.insert sender { txs := queue.txs.erase nonce } }
          other).txs.lookup nonce'
      = if other = sender ∧ nonce' = nonce then none
        else (pool.queueOf other).txs.lookup nonce' := by
  have own : pool.queueOf sender = queue := by simp only [queueOf, waiting, Option.getD_some]
  rw [queueOf_insert]
  by_cases same : other = sender
  · subst same
    simp only [if_true, true_and, FinMap.lookup_erase_eq, own]
  · simp only [same, if_false, false_and]

end TransactionPool

-----------------------------------------------------------------------------------------
-- Steps that other calls have not outrun
-----------------------------------------------------------------------------------------

variable {ι : Type*}

/-- What a call has checked still stands when it acts: the key it inserts under is free and
there is room, the slot it fills or empties holds no other transaction, the queue it drops is
empty, and no call that is done has been in between.
-/
def PoolCall.Stands (config : Config ι PoolCall TransactionPool) : PoolCall → Prop
  | .addToHash tx _ =>
      config.shared.KeyFree tx
      ∧ (tx.hash ∈ config.shared.byHash
          ∨ config.shared.byHash.keys.card < config.shared.maxSize)
  | .addToQueue tx sender =>
      config.shared.SlotFree tx sender
      ∧ (config.shared.byHash.lookup tx.hash = some tx
          ∨ ∃ other, config.tasks other = .removeFromQueue tx sender)
  | .removeFromQueue tx sender =>
      config.shared.SlotFree tx sender
      ∧ (config.shared.byHash.lookup tx.hash ≠ some tx
          ∨ ∃ other, config.tasks other = .addToQueue tx sender)
  | .dropQueue _ sender => (config.shared.queueOf sender).txs = ∅
  | _ => True

instance [Fintype ι] (config : Config ι PoolCall TransactionPool)
    : ∀ call : PoolCall, Decidable (call.Stands config)
  | .addToHash _ _ => inferInstanceAs (Decidable ((_ ∨ _) ∧ (_ ∨ _)))
  | .addToQueue _ _ => inferInstanceAs (Decidable ((_ ∨ _) ∧ (_ ∨ _)))
  | .removeFromQueue _ _ => inferInstanceAs (Decidable ((_ ∨ _) ∧ (_ ∨ _)))
  | .dropQueue _ _ => inferInstanceAs (Decidable (_ = _))
  | .add _ | .addCapacity _ | .addRejected _ | .addNonce _ _ | .added _ _ | .remove _
  | .removed _ => inferInstanceAs (Decidable True)

/-- The next step of the task acts on a pool where the checks of its call stand. -/
def Undisturbed (config : Config ι PoolCall TransactionPool) (task : ι) : Prop :=
  (config.tasks task).Stands config

instance [Fintype ι] (config : Config ι PoolCall TransactionPool) (task : ι)
    : Decidable (Undisturbed config task) :=
  inferInstanceAs (Decidable (PoolCall.Stands _ _))

/-- What holds between any two steps: a transaction in one index is in the other, or a call
on its way will put it there or take it out.
-/
structure Interim (crypto : Crypto) (maxSize : Nat)
    (config : Config ι PoolCall TransactionPool)
    : Prop where
  hashed
    : ∀ hash tx, config.shared.byHash.lookup hash = some tx →
        tx.hash = hash
        ∧ ∃ sender,
            tx.sender crypto = .ok sender
            ∧ ((config.shared.queueOf sender).txs.lookup tx.transaction.nonce = some tx
                ∨ ∃ task, config.tasks task = .addToQueue tx sender)
  queued
    : ∀ sender nonce tx, (config.shared.queueOf sender).txs.lookup nonce = some tx →
        tx.sender crypto = .ok sender
        ∧ tx.transaction.nonce = nonce
        ∧ (config.shared.byHash.lookup tx.hash = some tx
            ∨ ∃ task, config.tasks task = .removeFromQueue tx sender)
  signed : ∀ task, (config.tasks task).Signed crypto
  kept
    : ∀ task tx, (config.tasks task).Put tx →
        config.shared.byHash.lookup tx.hash = some tx
        ∨ ∃ other, (config.tasks other).Took tx
  limit : config.shared.maxSize = maxSize
  size : config.shared.byHash.keys.card ≤ maxSize

/-- A step of a call that neither begins nor ends its work on one of the indexes. -/
structure PoolCall.Idle (call next : PoolCall) : Prop where
  put : ∀ tx, next.Put tx → call.Put tx
  took : ∀ tx, call.Took tx → next.Took tx
  toQueue : ∀ tx sender, call = .addToQueue tx sender → next = .addToQueue tx sender
  fromQueue : ∀ tx sender, call = .removeFromQueue tx sender → next = .removeFromQueue tx sender

theorem PoolCall.Idle.refl (call : PoolCall) : call.Idle call :=
  ⟨fun _ => id, fun _ => id, fun _ _ => id, fun _ _ => id⟩

/-- The call has put nothing and taken nothing. -/
def PoolCall.Early : PoolCall → Prop
  | .add _ | .addCapacity _ | .addRejected _ | .addNonce _ _ | .remove _ => True
  | _ => False

/-- Such a call stays idle until it has put something. -/
theorem PoolCall.Early.idle {call next : PoolCall} (early : call.Early)
    (unput : ∀ tx, ¬ next.Put tx)
    : call.Idle next := by
  refine ⟨fun tx put => absurd put (unput tx), ?_, ?_, ?_⟩
  · intro tx took
    rcases took with ⟨sender, rfl | rfl⟩ | rfl <;> exact early.elim
  · rintro tx sender rfl
    exact early.elim
  · rintro tx sender rfl
    exact early.elim

namespace Interim

open TransactionPool

variable [DecidableEq ι] {crypto : Crypto} {maxSize : Nat}
  {config : Config ι PoolCall TransactionPool} {task : ι}

/-- An idle step that leaves the content of both indexes leaves the invariant. -/
theorem idle (interim : Interim crypto maxSize config) {next : PoolCall}
    {pool : TransactionPool} (idle : (config.tasks task).Idle next)
    (signed : next.Signed crypto) (byHash : pool.byHash = config.shared.byHash)
    (limit : pool.maxSize = config.shared.maxSize)
    (queues : ∀ sender, pool.queueOf sender = config.shared.queueOf sender)
    : Interim crypto maxSize
        { tasks := Function.update config.tasks task next, shared := pool } where
  hashed hash tx found := by
    simp only [byHash] at found
    obtain ⟨key, sender, own, waiting⟩ := interim.hashed hash tx found
    refine ⟨key, sender, own, ?_⟩
    simp only [queues]
    exact waiting.imp id fun pending =>
      Config.exists_update (Eq · (PoolCall.addToQueue tx sender)) pending (idle.toQueue tx sender)
  queued sender nonce tx found := by
    simp only [queues] at found
    obtain ⟨own, key, stored⟩ := interim.queued sender nonce tx found
    refine ⟨own, key, ?_⟩
    simp only [byHash]
    exact stored.imp id fun pending =>
      Config.exists_update (Eq · (PoolCall.removeFromQueue tx sender)) pending
        (idle.fromQueue tx sender)
  signed := Config.forall_update (PoolCall.Signed crypto) signed interim.signed
  kept other tx put := by
    simp only [byHash] at put ⊢
    have before : ∃ other, (config.tasks other).Put tx :=
      (Config.of_update (PoolCall.Put tx) put).elim (fun put => ⟨task, idle.put tx put⟩) id
    obtain ⟨other, put⟩ := before
    exact (interim.kept other tx put).imp id
      fun taken => Config.exists_update (PoolCall.Took tx) taken (idle.took tx)
  limit := limit.trans interim.limit
  size := by
    simp only [byHash]
    exact interim.size

/-- An insertion into the index by hash that displaces no other transaction. -/
theorem addToHash (interim : Interim crypto maxSize config) {tx : SignedTransaction}
    {sender : Address} (at_ : config.tasks task = .addToHash tx sender)
    (undisturbed : Undisturbed config task)
    : Interim crypto maxSize
        { tasks := Function.update config.tasks task (.addToQueue tx sender)
          shared :=
            { config.shared with byHash := config.shared.byHash.insert tx.hash tx } } := by
  have own : tx.sender crypto = .ok sender := by
    simpa only [at_, PoolCall.Signed] using interim.signed task
  simp only [Undisturbed, at_, PoolCall.Stands] at undisturbed
  obtain ⟨free, room⟩ := undisturbed
  have stays (other : SignedTransaction)
      (stored : config.shared.byHash.lookup other.hash = some other)
      : (config.shared.byHash.insert tx.hash tx).lookup other.hash = some other := by
    rw [FinMap.lookup_insert_eq]
    split
    next same =>
      rw [same] at stored
      rw [free.eq stored]
    next => exact stored
  refine ⟨?_, ?_, ?_, ?_, interim.limit, ?_⟩
  · intro hash other found
    rw [FinMap.lookup_insert_eq] at found
    split at found
    next here =>
      obtain rfl := Option.some.inj found
      exact ⟨here.symm, sender, own, Or.inr ⟨task, Function.update_self ..⟩⟩
    next =>
      obtain ⟨key, owner, signed, waiting⟩ := interim.hashed hash other found
      refine ⟨key, owner, signed, waiting.imp id fun pending => ?_⟩
      exact Config.exists_update (Eq · (PoolCall.addToQueue other owner)) pending (by simp [at_])
  · intro owner nonce other found
    obtain ⟨signed, key, stored⟩ := interim.queued owner nonce other found
    refine ⟨signed, key, stored.imp (stays other) fun pending => ?_⟩
    exact Config.exists_update (Eq · (PoolCall.removeFromQueue other owner)) pending
      (by simp [at_])
  · exact Config.forall_update (PoolCall.Signed crypto) own interim.signed
  · intro other tx' put
    rcases Config.of_update (PoolCall.Put tx') put with new | ⟨other, put⟩
    · obtain rfl : tx = tx' := by simpa [PoolCall.Put] using new
      exact Or.inl (Finmap.lookup_insert _)
    · refine (interim.kept other tx' put).imp (stays tx') fun taken => ?_
      exact Config.exists_update (PoolCall.Took tx') taken (by simp [at_, PoolCall.Took])
  · simp only [FinMap.keys_insert]
    rcases room with known | space
    · rw [Finset.insert_eq_self.mpr (Finmap.mem_keys.mpr known)]
      exact interim.size
    · exact Nat.le_trans (Finset.card_insert_le _ _) (interim.limit ▸ space)

/-- An insertion into the queue of the sender, of a transaction that is in the index by hash or
on its way out.
-/
theorem addToQueue (interim : Interim crypto maxSize config) {tx : SignedTransaction}
    {sender : Address} (at_ : config.tasks task = .addToQueue tx sender)
    (undisturbed : Undisturbed config task)
    : Interim crypto maxSize
        { tasks := Function.update config.tasks task (.added tx (.ok tx.hash))
          shared :=
            { config.shared with
              bySender := config.shared.bySender.insert sender
                { txs :=
                    (config.shared.queueOf sender).txs.insert tx.transaction.nonce tx } } } := by
  have own : tx.sender crypto = .ok sender := by
    simpa only [at_, PoolCall.Signed] using interim.signed task
  simp only [Undisturbed, at_, PoolCall.Stands] at undisturbed
  obtain ⟨free, stored⟩ := undisturbed
  refine ⟨?_, ?_, ?_, ?_, interim.limit, interim.size⟩
  · intro hash other found
    obtain ⟨key, owner, signed, waiting⟩ := interim.hashed hash other found
    refine ⟨key, owner, signed, ?_⟩
    rw [queueOf_add config.shared tx sender owner config.shared.byHash other.transaction.nonce]
    rcases waiting with waiting | pending
    · left
      split
      next here =>
        rw [here.1, here.2] at waiting
        exact congrArg some (free.eq waiting).symm
      next => exact waiting
    · rcases Config.exists_update_or (Eq · (PoolCall.addToQueue other owner)) pending
        with this | others
      · rw [at_] at this
        obtain ⟨rfl, rfl⟩ := PoolCall.addToQueue.inj this
        exact Or.inl (if_pos ⟨rfl, rfl⟩)
      · exact Or.inr others
  · intro owner nonce other found
    rcases mem_queueOf_add found with ⟨rfl, rfl, rfl⟩ | before
    · refine ⟨own, rfl, stored.imp id fun pending => ?_⟩
      exact Config.exists_update (Eq · (PoolCall.removeFromQueue other owner)) pending
        (by simp [at_])
    · obtain ⟨signed, key, stored⟩ := interim.queued owner nonce other before
      refine ⟨signed, key, stored.imp id fun pending => ?_⟩
      exact Config.exists_update (Eq · (PoolCall.removeFromQueue other owner)) pending
        (by simp [at_])
  · exact Config.forall_update (PoolCall.Signed crypto) trivial interim.signed
  · intro other tx' put
    have before : ∃ other, (config.tasks other).Put tx' := by
      rcases Config.of_update (PoolCall.Put tx') put with new | before
      · obtain rfl : tx = tx' := by simpa [PoolCall.Put] using new
        exact ⟨task, Or.inl ⟨sender, at_⟩⟩
      · exact before
    obtain ⟨other, put⟩ := before
    refine (interim.kept other tx' put).imp id fun taken => ?_
    exact Config.exists_update (PoolCall.Took tx') taken (by simp [at_, PoolCall.Took])

/-- A removal from the index by hash; the call goes on to the queue of the sender. -/
theorem remove (interim : Interim crypto maxSize config) {hash : B256} {tx : SignedTransaction}
    {sender : Address} (at_ : config.tasks task = .remove hash)
    (known : config.shared.byHash.lookup hash = some tx) (own : tx.sender crypto = .ok sender)
    : Interim crypto maxSize
        { tasks := Function.update config.tasks task (.removeFromQueue tx sender)
          shared := { config.shared with byHash := config.shared.byHash.erase hash } } := by
  have cases (other : SignedTransaction)
      (stored : config.shared.byHash.lookup other.hash = some other)
      : other = tx ∨ (config.shared.byHash.erase hash).lookup other.hash = some other := by
    rw [FinMap.lookup_erase_eq]
    split
    next same =>
      rw [same, known] at stored
      exact Or.inl (Option.some.inj stored).symm
    next => exact Or.inr stored
  refine ⟨?_, ?_, ?_, ?_, interim.limit, ?_⟩
  · intro hash' other found
    rw [FinMap.lookup_erase_eq] at found
    split at found
    next => simp at found
    next =>
      obtain ⟨key, owner, signed, waiting⟩ := interim.hashed hash' other found
      refine ⟨key, owner, signed, waiting.imp id fun pending => ?_⟩
      exact Config.exists_update (Eq · (PoolCall.addToQueue other owner)) pending (by simp [at_])
  · intro owner nonce other found
    obtain ⟨signed, key, stored⟩ := interim.queued owner nonce other found
    refine ⟨signed, key, ?_⟩
    rcases stored with stored | pending
    · rcases cases other stored with rfl | stays
      · obtain rfl := Except.ok.inj (own.symm.trans signed)
        exact Or.inr ⟨task, Function.update_self ..⟩
      · exact Or.inl stays
    · exact Or.inr (Config.exists_update (Eq · (PoolCall.removeFromQueue other owner)) pending
        (by simp [at_]))
  · exact Config.forall_update (PoolCall.Signed crypto) own interim.signed
  · intro other tx' put
    rcases Config.of_update (PoolCall.Put tx') put with new | ⟨other, put⟩
    · simp [PoolCall.Put] at new
    · rcases interim.kept other tx' put with stored | taken
      · rcases cases tx' stored with rfl | stays
        · exact Or.inr ⟨task, by simp [PoolCall.Took]⟩
        · exact Or.inl stays
      · exact Or.inr (Config.exists_update (PoolCall.Took tx') taken
          (by simp [at_, PoolCall.Took]))
  · rw [Finmap.keys_erase]
    exact Nat.le_trans Finset.card_erase_le interim.size

/-- A removal from the queue of the sender, which leaves the queue or not. -/
theorem removeFromQueue (interim : Interim crypto maxSize config) {tx : SignedTransaction}
    {sender : Address} {next : PoolCall} {pool : TransactionPool}
    (at_ : config.tasks task = .removeFromQueue tx sender)
    (undisturbed : Undisturbed config task)
    (goesOn : next = .dropQueue tx sender ∨ next = .removed (some tx))
    (byHash : pool.byHash = config.shared.byHash)
    (limit : pool.maxSize = config.shared.maxSize)
    (queues
      : ∀ other nonce,
          (pool.queueOf other).txs.lookup nonce
            = if other = sender ∧ nonce = tx.transaction.nonce then none
              else (config.shared.queueOf other).txs.lookup nonce)
    : Interim crypto maxSize
        { tasks := Function.update config.tasks task next, shared := pool } := by
  have own : tx.sender crypto = .ok sender := by
    simpa only [at_, PoolCall.Signed] using interim.signed task
  simp only [Undisturbed, at_, PoolCall.Stands] at undisturbed
  obtain ⟨free, gone⟩ := undisturbed
  refine ⟨?_, ?_, ?_, ?_, limit.trans interim.limit, by simpa only [byHash] using interim.size⟩
  · intro hash other found
    simp only [byHash] at found
    obtain ⟨key, owner, signed, waiting⟩ := interim.hashed hash other found
    refine ⟨key, owner, signed, ?_⟩
    have still (pending : ∃ task, config.tasks task = .addToQueue other owner)
        : ∃ task', Function.update config.tasks task next task' = .addToQueue other owner :=
      Config.exists_update (Eq · (PoolCall.addToQueue other owner)) pending (by simp [at_])
    rcases waiting with waiting | pending
    · simp only [queues]
      split
      next here =>
        -- the slot that is emptied was the slot of this very transaction, added again
        obtain ⟨rfl, sameNonce⟩ := here
        rw [sameNonce] at waiting
        obtain rfl := free.eq waiting
        rw [← key] at found
        exact Or.inr (still (gone.resolve_left (not_not_intro found)))
      next => exact Or.inl waiting
    · exact Or.inr (still pending)
  · intro owner nonce other found
    simp only [queues] at found
    split at found
    next => simp at found
    next apart =>
      obtain ⟨signed, key, stored⟩ := interim.queued owner nonce other found
      refine ⟨signed, key, ?_⟩
      simp only [byHash]
      refine stored.imp id fun pending => ?_
      rcases Config.exists_update_or (Eq · (PoolCall.removeFromQueue other owner)) pending
        with this | others
      · rw [at_] at this
        obtain ⟨rfl, rfl⟩ := PoolCall.removeFromQueue.inj this
        exact absurd ⟨rfl, key.symm⟩ apart
      · exact others
  · apply Config.forall_update (PoolCall.Signed crypto) _ interim.signed
    rcases goesOn with rfl | rfl
    · exact own
    · exact trivial
  · intro other tx' put
    simp only [byHash]
    rcases Config.of_update (PoolCall.Put tx') put with new | ⟨other, put⟩
    · rcases goesOn with rfl | rfl <;> simp [PoolCall.Put] at new
    · refine (interim.kept other tx' put).imp id fun taken => ?_
      apply Config.exists_update (PoolCall.Took tx') taken
      rcases goesOn with rfl | rfl <;> simp [at_, PoolCall.Took]

/-- A step that only looks at the pool keeps the invariant. -/
theorem look (interim : Interim crypto maxSize config) {call next : PoolCall}
    (at_ : config.tasks task = call)
    (acts : call.act crypto config.shared = (next, config.shared))
    (idle : call.Idle next) (signed : next.Signed crypto)
    : Interim crypto maxSize (config.step (PoolCall.act crypto) task) := by
  subst at_
  rw [Config.step_eq acts]
  exact interim.idle idle signed rfl rfl (fun _ => rfl)

/-- The access to the queue of a transaction that is removed, whether there is a queue or not. -/
theorem removeFromQueue_step (interim : Interim crypto maxSize config) {tx : SignedTransaction}
    {sender : Address} (at_ : config.tasks task = .removeFromQueue tx sender)
    (undisturbed : Undisturbed config task)
    : Interim crypto maxSize (config.step (PoolCall.act crypto) task) := by
  cases waiting : config.shared.bySender.lookup sender with
  | none =>
      rw [Config.step_eq (by simp only [at_, PoolCall.act, waiting]; rfl)]
      apply interim.removeFromQueue at_ undisturbed (Or.inr rfl) rfl rfl
      intro other nonce
      split
      next here =>
        rw [here.1]
        simp only [queueOf, waiting, Option.getD_none, SenderQueue.empty, Finmap.lookup_empty]
      next => rfl
  | some queue =>
      have erased := queueOf_erase waiting tx.transaction.nonce
      by_cases last : (queue.txs.erase tx.transaction.nonce).keys.card = 0
      · rw [Config.step_eq (by simp only [at_, PoolCall.act, waiting, last, if_true]; rfl)]
        exact interim.removeFromQueue at_ undisturbed (Or.inl rfl) rfl rfl erased
      · rw [Config.step_eq (by simp only [at_, PoolCall.act, waiting, last, if_false]; rfl)]
        exact interim.removeFromQueue at_ undisturbed (Or.inr rfl) rfl rfl erased

/-- A queue that is empty can be dropped. -/
theorem dropQueue (interim : Interim crypto maxSize config) {tx : SignedTransaction}
    {sender : Address} (at_ : config.tasks task = .dropQueue tx sender)
    (empty : (config.shared.queueOf sender).txs = ∅)
    : Interim crypto maxSize
        { tasks := Function.update config.tasks task (.removed (some tx))
          shared := { config.shared with bySender := config.shared.bySender.erase sender } } := by
  refine interim.idle ?_ trivial rfl rfl ?_
  · rw [at_]
    constructor <;> simp +contextual [PoolCall.Put, PoolCall.Took]
  · intro other
    unfold queueOf at empty ⊢
    simp only [FinMap.lookup_erase_eq]
    split
    next same =>
      rw [same]
      cases waiting : config.shared.bySender.lookup sender with
      | none => rfl
      | some queue =>
          rw [waiting] at empty
          exact congrArg SenderQueue.mk empty.symm
    next => rfl

/-- Every access on a pool where the checks of its call still stand keeps the invariant. -/
theorem step (interim : Interim crypto maxSize config) (undisturbed : Undisturbed config task)
    : Interim crypto maxSize (config.step (PoolCall.act crypto) task) := by
  have signed := interim.signed task
  have early {call next : PoolCall} (at_ : config.tasks task = call) (early : call.Early)
      (acts : call.act crypto config.shared = (next, config.shared))
      (unput : ∀ tx, ¬ next.Put tx) (signed : next.Signed crypto)
      : Interim crypto maxSize (config.step (PoolCall.act crypto) task) :=
    interim.look at_ acts (early.idle unput) signed
  cases at_ : config.tasks task with
  | add tx =>
      by_cases known : tx.hash ∈ config.shared.byHash
      · exact early at_ trivial (if_pos known) (by simp [PoolCall.Put]) trivial
      · exact early at_ trivial (if_neg known) (by simp [PoolCall.Put]) trivial
  | addCapacity tx =>
      by_cases full : config.shared.byHash.keys.card ≥ config.shared.maxSize
      · exact early at_ trivial (if_pos full) (by simp [PoolCall.Put]) trivial
      · cases recovered : tx.sender crypto with
        | error e =>
            apply early at_ trivial (by simp only [PoolCall.act, full, if_false, recovered]; rfl)
            · simp [PoolCall.Put]
            · exact trivial
        | ok sender =>
            apply early at_ trivial (by simp only [PoolCall.act, full, if_false, recovered]; rfl)
            · simp [PoolCall.Put]
            · exact recovered
  | addRejected tx => exact early at_ trivial rfl (by simp [PoolCall.Put]) trivial
  | addNonce tx sender =>
      rw [at_] at signed
      by_cases used : tx.transaction.nonce ∈ (config.shared.queueOf sender).txs
      · exact early at_ trivial (if_pos used) (by simp [PoolCall.Put]) trivial
      · exact early at_ trivial (if_neg used) (by simp [PoolCall.Put]) signed
  | addToHash tx sender =>
      rw [Config.step_eq (by simp only [at_, PoolCall.act]; rfl)]
      exact interim.addToHash at_ undisturbed
  | addToQueue tx sender =>
      rw [Config.step_eq (by simp only [at_, PoolCall.act]; rfl)]
      exact interim.addToQueue at_ undisturbed
  | added tx result => exact interim.look at_ rfl (.refl _) trivial
  | remove hash =>
      cases known : config.shared.byHash.lookup hash with
      | none =>
          apply early at_ trivial (by simp only [PoolCall.act, known]; rfl)
          · simp [PoolCall.Put]
          · exact trivial
      | some tx =>
          obtain ⟨_, sender, own, _⟩ := interim.hashed hash tx known
          rw [Config.step_eq (by simp only [at_, PoolCall.act, known, own]; rfl)]
          exact interim.remove at_ known own
  | removeFromQueue tx sender => exact interim.removeFromQueue_step at_ undisturbed
  | dropQueue tx sender =>
      rw [Config.step_eq (by simp only [at_, PoolCall.act]; rfl)]
      simp only [Undisturbed, at_, PoolCall.Stands] at undisturbed
      exact interim.dropQueue at_ undisturbed
  | removed result => exact interim.look at_ rfl (.refl _) trivial

end Interim

/-- A pool whose indexes agree, before any call has begun. -/
theorem Interim.of_consistent {crypto : Crypto} {maxSize : Nat} {pool : TransactionPool}
    (consistent : pool.Consistent crypto maxSize) {tasks : ι → PoolCall}
    (fresh : ∀ task, (tasks task).Fresh)
    : Interim crypto maxSize { tasks, shared := pool } where
  hashed hash tx found := by
    obtain ⟨key, sender, own, waiting⟩ := consistent.same.hashed hash tx found
    exact ⟨key, sender, own, Or.inl waiting⟩
  queued sender nonce tx found := by
    obtain ⟨own, key, stored⟩ := consistent.same.queued sender nonce tx found
    exact ⟨own, key, Or.inl stored⟩
  signed task := by
    have begins := fresh task
    cases at_ : tasks task <;> simp_all [PoolCall.Fresh, PoolCall.Signed]
  kept task tx put := by
    have begins := fresh task
    cases at_ : tasks task <;> simp_all [PoolCall.Fresh, PoolCall.Put]
  limit := consistent.limit
  size := consistent.size

/-- The indexes agree, and what was added and not removed is in both. -/
structure Agree (crypto : Crypto) (config : Config ι PoolCall TransactionPool) : Prop where
  same : config.shared.SameTransactions crypto
  kept
    : ∀ task tx hash, config.tasks task = .added tx (.ok hash) →
        (∀ other, config.tasks other ≠ .removed (some tx)) →
        config.shared.byHash.lookup tx.hash = some tx ∧ config.shared.Queued crypto tx

/-- Once all calls have returned, nothing is on its way between the indexes. -/
theorem Interim.agree {crypto : Crypto} {maxSize : Nat}
    {config : Config ι PoolCall TransactionPool} (interim : Interim crypto maxSize config)
    (returned : ∀ task, (config.tasks task).Returned)
    : Agree crypto config := by
  have same : config.shared.SameTransactions crypto := by
    constructor
    · intro hash tx found
      obtain ⟨key, sender, own, waiting | ⟨task, pending⟩⟩ := interim.hashed hash tx found
      · exact ⟨key, sender, own, waiting⟩
      · have done := returned task
        rw [pending] at done
        exact done.elim
    · intro sender nonce tx found
      obtain ⟨own, key, stored | ⟨task, pending⟩⟩ := interim.queued sender nonce tx found
      · exact ⟨own, key, stored⟩
      · have done := returned task
        rw [pending] at done
        exact done.elim
  refine ⟨same, ?_⟩
  intro task tx hash added unremoved
  rcases interim.kept task tx (Or.inr ⟨hash, added⟩) with stored | ⟨other, taken⟩
  · exact ⟨stored, (same.hashed tx.hash tx stored).2⟩
  · rcases taken with ⟨sender, at_ | at_⟩ | removed
    · have done := returned other
      rw [at_] at done
      exact done.elim
    · have done := returned other
      rw [at_] at done
      exact done.elim
    · exact absurd removed (unremoved other)

/-- Calls at the same time whose checks still stand when they act: the pool never holds more
than it may, and when all have returned the indexes agree.
-/
theorem undisturbed_calls [DecidableEq ι] {crypto : Crypto} {maxSize : Nat}
    {pool : TransactionPool} (consistent : pool.Consistent crypto maxSize)
    {tasks : ι → PoolCall} (fresh : ∀ task, (tasks task).Fresh) {schedule : List ι}
    (meets
      : Config.Meets (PoolCall.act crypto) Undisturbed schedule { tasks, shared := pool })
    : let config := Config.run (PoolCall.act crypto) schedule { tasks, shared := pool }
      config.shared.byHash.keys.card ≤ maxSize
        ∧ ((∀ task, (config.tasks task).Returned) → Agree crypto config) := by
  intro config
  have interim : Interim crypto maxSize config :=
    Config.run_invariant (Interim crypto maxSize) (fun _ _ => Interim.step)
      (Interim.of_consistent consistent fresh) meets
  exact ⟨interim.size, interim.agree⟩

/-- A transfer signed with a secret key of the disclosing library, under its own hash. -/
def SignedTransaction.sample (secret : B256) (nonce : Nat) : SignedTransaction :=
  { transaction :=
      { txType := .legacy, chainId := 1, nonce, gasPrice := some 1, maxFeePerGas := none
        maxPriorityFeePerGas := none, gasLimit := 21000, «to» := none, value := 0, input := []
        gameAction := none }
    signature := { v := 0, r := secret, s := 0 }
    hash := secret }

/-- Two additions, one after the other, on a pool with one place. -/
theorem undisturbed_calls_sample
    : let config :=
        Config.run (PoolCall.act .disclosing)
          [true, true, true, true, true, false, false, false]
          { tasks := fun task => .add (.sample (if task then 7 else 8) 0)
            shared := .withMaxSize 1 }
      config.shared.byHash.keys.card ≤ 1
        ∧ ((∀ task, (config.tasks task).Returned) → Agree .disclosing config) := by
  apply undisturbed_calls (TransactionPool.consistent_withMaxSize .disclosing 1)
  · intro task
    exact trivial
  · decide +kernel

/-- Two additions that have both seen the last free place, and an addition between the two
halves of the removal of an empty queue.
-/
theorem disturbed_calls
    : let act := PoolCall.act .disclosing
      let filled :=
        Config.run act [true, true, true, false, false, false, true, true, false, false]
          { tasks := fun task => .add (.sample (if task then 7 else 8) 0)
            shared := .withMaxSize 1 }
      let lost :=
        Config.run act [true, true, false, false, false, false, false, true]
          { tasks := fun task => if task then .remove 7 else .add (.sample 7 1)
            shared := ((TransactionPool.withMaxSize 9).addTransaction .disclosing
              (.sample 7 0)).2 }
      filled.shared.byHash.keys.card = 2
      ∧ (∀ task, (lost.tasks task).Returned) ∧ ¬ Agree .disclosing lost := by
  intro act filled lost
  have added : lost.tasks false = .added (.sample 7 1) (.ok 7) := by decide +kernel
  have removed : lost.tasks true = .removed (some (.sample 7 0)) := by decide +kernel
  refine ⟨by decide +kernel, ?_, ?_⟩
  · intro task
    cases task with
    | false => rw [added]; exact trivial
    | true => rw [removed]; exact trivial
  · intro agree
    obtain ⟨_, sender, own, waiting⟩ := agree.kept false (.sample 7 1) 7 added (by
      intro other
      cases other with
      | false => rw [added]; exact nofun
      | true => rw [removed]; decide)
    have known : SignedTransaction.sender .disclosing (.sample 7 1) = .ok 7 := by decide +kernel
    obtain rfl := Except.ok.inj (known.symm.trans own)
    have gone : (lost.shared.queueOf 7).txs.lookup 1 = none := by decide +kernel
    exact absurd (gone.symm.trans waiting) nofun

end VeloChain
