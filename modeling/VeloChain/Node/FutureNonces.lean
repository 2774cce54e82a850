import VeloChain.Node.NonceOrder
import VeloChain.Node.Progress
import VeloChain.TxPool.PendingOrder
import VeloChain.TxPool.Slots

/-! What becomes of pooled transactions whose nonces are ahead of their accounts.
The pool hands out what it has and does not look at the accounts. The block application skips a
transaction that is not due at its turn, and takes every transaction of the block out of the pool.
-/

namespace VeloChain

open AccountView CountedList

/-- The transactions whose nonces are not below those of their senders. -/
def awaited (crypto : Crypto) (view : AccountView StateError) (txs : List SignedTransaction)
    : List SignedTransaction :=
  txs.filter (fun tx =>
    (tx.sender crypto).toOption.any (fun sender =>
      decide (view.nonceAt sender ≤ tx.transaction.nonce)))

theorem sentBy_awaited (crypto : Crypto) (view : AccountView StateError) (sender : Address)
    (txs : List SignedTransaction)
    : sentBy crypto sender (awaited crypto view txs)
      = (sentBy crypto sender txs).filter
          (fun tx => decide (view.nonceAt sender ≤ tx.transaction.nonce)) := by
  unfold sentBy awaited
  rw [List.filter_filter, List.filter_filter]
  apply List.filter_congr
  intro tx _
  by_cases recovered : tx.sender crypto = .ok sender
  · simp [recovered, Except.toOption]
  · simp [recovered]

namespace Ledger

variable {F : Type} {host : Host F}
  {effect : Address → SignedTransaction → Ledger → Ledger}

-----------------------------------------------------------------------------------------
-- One pass
-----------------------------------------------------------------------------------------

/-- The transactions of a sender that are due at their turn are those that a counter takes which
starts at its nonce, by induction on the list.
-/
theorem CountsNonce.exists_due_iff (counts : CountsNonce effect) {txs : List SignedTransaction}
    {ledger : Ledger} (readable : ∀ tx ∈ txs, SenderReadable host.crypto ledger.view tx)
    {tx : SignedTransaction} {sender : Address} (recovered : tx.sender host.crypto = .ok sender)
    : (∃ turn ∈ Loop.turns (Ledger.guarded host effect) txs ledger,
          turn.item = tx ∧ DueTurn host turn)
      ↔ tx ∈ taken (fun (tx : SignedTransaction) => tx.transaction.nonce)
          (ledger.view.nonceAt sender) (sentBy host.crypto sender txs) := by
  induction txs generalizing ledger with
  | nil => exact iff_of_false (by simp) (by simp [sentBy, taken])
  | cons head rest ih =>
      obtain ⟨here, later⟩ := List.forall_mem_cons.mp readable
      rcases turn_cases host.crypto ledger.view head with refused | stale | ⟨other, due⟩
      · exact absurd here refused
      · have notDue (turn : Loop.Turn SignedTransaction Ledger) (item : turn.item = head)
            (before : turn.before = ledger)
            : ¬ DueTurn host turn := by
          rintro ⟨_, isDue⟩
          rw [item, before] at isDue
          exact isDue.not_stale stale
        rw [Loop.turns_cons_ok (guarded_of_stale stale), List.exists_mem_cons_iff, ih later]
        obtain ⟨other, n, isOther, read, ne⟩ := stale
        simp only [notDue, and_false, false_or]
        by_cases same : sender = other
        · subst same
          rw [sentBy_cons_of_sender isOther, taken_cons_of_ne]
          rw [nonceAt_eq read]
          exact ne
        · rw [sentBy_cons_of_ne isOther same]
      · have turn := @guarded_of_due _ host effect ledger head other due
        have kept := (counts.guarded host head ledger).2
        rw [turn] at kept
        rw [Loop.turns_cons_ok turn, List.exists_mem_cons_iff,
          ih (fun tx' member => (senderReadable_congr kept).mpr (later tx' member))]
        have isDue : DueTurn host ⟨head, ledger, effect other head ledger⟩ := ⟨other, due⟩
        simp only [isDue, and_true]
        by_cases same : sender = other
        · subst same
          have counted := nonceAt_eq (counts.self sender head ledger _ due.nonce)
          rw [sentBy_cons_of_sender due.recovered, counted, nonceAt_eq due.nonce,
            taken_cons_of_eq rfl, List.mem_cons, eq_comm]
        · have kept : (effect other head ledger).view.nonceAt sender
              = ledger.view.nonceAt sender := by
            rw [nonceAt, counts.other other head ledger sender same, nonceAt]
          rw [sentBy_cons_of_ne due.recovered same, kept, or_iff_right]
          rintro rfl
          exact same (Except.ok.inj (recovered.symm.trans due.recovered))

/-- A pass does nothing for transactions whose nonces were below those of their senders before. -/
theorem CountsNonce.run_awaited (counts : CountsNonce effect) {view : AccountView StateError}
    {txs : List SignedTransaction} {ledger : Ledger}
    (readable : ∀ tx ∈ txs, SenderReadable host.crypto ledger.view tx)
    (reached : ∀ sender, view.nonceAt sender ≤ ledger.view.nonceAt sender)
    : Loop.run (Ledger.guarded host effect) (awaited host.crypto view txs) ledger
      = Loop.run (Ledger.guarded host effect) txs ledger := by
  induction txs generalizing ledger with
  | nil => rfl
  | cons tx rest ih =>
      obtain ⟨here, later⟩ := List.forall_mem_cons.mp readable
      have ⟨sender, recovered, isReadable⟩ := here
      obtain ⟨n, read⟩ := readableAt_iff_nonce.mp isReadable
      by_cases waits : view.nonceAt sender ≤ tx.transaction.nonce
      · have listed : awaited host.crypto view (tx :: rest) = tx :: awaited host.crypto view rest :=
          List.filter_cons_of_pos (by simp [recovered, Except.toOption, waits])
        obtain ⟨le, kept⟩ := counts.guarded host tx ledger
        rcases turn_cases host.crypto ledger.view tx with refused | stale | ⟨other, due⟩
        · exact absurd here refused
        · rw [listed, Loop.run_cons_ok (guarded_of_stale stale),
            Loop.run_cons_ok (guarded_of_stale stale)]
          exact ih later reached
        · have turn := @guarded_of_due _ host effect ledger tx other due
          rw [turn] at le kept
          rw [listed, Loop.run_cons_ok turn, Loop.run_cons_ok turn]
          exact ih (fun tx' member => (senderReadable_congr kept).mpr (later tx' member))
            (fun sender => Nat.le_trans (reached sender) (le.nonceAt_le sender))
      · have listed : awaited host.crypto view (tx :: rest) = awaited host.crypto view rest :=
          List.filter_cons_of_neg (by simp [recovered, Except.toOption, waits])
        have atLeast := reached sender
        rw [nonceAt_eq read] at atLeast
        have stale : Stale host.crypto ledger.view tx :=
          ⟨sender, n, recovered, read, by omega⟩
        rw [listed, Loop.run_cons_ok (guarded_of_stale stale)]
        exact ih later reached

-----------------------------------------------------------------------------------------
-- Both passes
-----------------------------------------------------------------------------------------

/-- The nonce of a sender after the EVM transactions of a list: that of its entry in the EVM
database after the interpreter has run the awaited ones. Without an entry they count on.
-/
def nonceAfterEvm (host : Host F) (chainId : UInt64) (evmTxs : List SignedTransaction)
    (view : AccountView StateError) (sender : Address) : Nat :=
  let waiting := awaited host.crypto view evmTxs
  let db := interpret host chainId waiting (start host evmTxs view).db
  if sender ∈ db.accounts then (db.infoOf sender).nonce
  else view.nonceAt sender + (sentBy host.crypto sender waiting).length

/-- The transactions come in an order in which none with a nonce ahead of its account is
skipped: the awaited EVM transactions of each sender count from its account, and its game
actions, if one is ahead of the account, count from where the EVM transactions leave it.
-/
structure FuturesInTurn (host : Host F) (chainId : UInt64) (view : AccountView StateError)
    (txs : List SignedTransaction) : Prop where
  evm
    : ContiguousNonces host.crypto view
        (awaited host.crypto view (txs.filter (fun tx => !tx.isGameAction)))
  game
    : ∀ sender,
        let first := nonceAfterEvm host chainId (txs.filter (fun tx => !tx.isGameAction)) view
          sender
        let actions := sentBy host.crypto sender (txs.filter SignedTransaction.isGameAction)
        (∃ tx ∈ actions, view.nonceAt sender < tx.transaction.nonce) →
          CountsFrom (fun (tx : SignedTransaction) => tx.transaction.nonce) first
            (actions.filter (fun tx => decide (first ≤ tx.transaction.nonce)))
          ∧ ∀ tx ∈ actions, view.nonceAt sender < tx.transaction.nonce →
              first ≤ tx.transaction.nonce

variable {chainId : UInt64} {block : Block} {view : AccountView StateError}

/-- Where the awaited EVM transactions count, the flush leaves the nonces that the interpreter
gives.
-/
theorem nonceAt_flush_of_awaited (readable : view.Readable)
    (recovered : ∀ tx ∈ block.body.transactions, ∃ sender, tx.sender host.crypto = .ok sender)
    (contiguous : ContiguousNonces host.crypto view (awaited host.crypto view block.evmTxs))
    (sender : Address)
    : (runEvm host chainId block view).flush.view.nonceAt sender
      = nonceAfterEvm host chainId block.evmTxs view sender := by
  have senders := senderReadable_start readable recovered
  have counts := transact_countsNonce host chainId
  have same : Loop.run (evmTx host chainId) (awaited host.crypto view block.evmTxs)
        (start host block.evmTxs view)
      = Loop.run (evmTx host chainId) block.evmTxs (start host block.evmTxs view) :=
    counts.run_awaited senders (fun sender => by rw [start_view])
  have due
      : ∀ turn ∈ Loop.turns (evmTx host chainId) (awaited host.crypto view block.evmTxs)
          (start host block.evmTxs view), DueTurn host turn := by
    refine (counts.dueTurns_iff fun tx member => senders tx (List.mem_of_mem_filter member)).mpr ?_
    rwa [start_view]
  have isDb
      : (runEvm host chainId block view).db
        = interpret host chainId (awaited host.crypto view block.evmTxs)
            (start host block.evmTxs view).db := by
    refine Eq.trans ?_ (db_run_evmTx due)
    rw [same]
    rfl
  have isNonce
      : (runEvm host chainId block view).view.nonceAt sender
        = view.nonceAt sender
          + (sentBy host.crypto sender (awaited host.crypto view block.evmTxs)).length := by
    have isReadable : (start host block.evmTxs view).view.ReadableAt sender := by
      rw [start_view]
      exact readable sender
    have total := counts.nonceAt_run due isReadable
    change (Loop.run (evmTx host chainId) _ _).2.view.nonceAt sender = _ at total
    rw [same, start_view] at total
    exact total
  have readableEnd : (runEvm host chainId block view).view.ReadableAt sender :=
    (Chain.sameReadable_runEvm chainId view sender).mpr (readable sender)
  rw [nonceAt_flush readableEnd, isDb, isNonce]
  rfl

section Turns

variable (readable : view.Readable)
  (recovered : ∀ tx ∈ block.body.transactions, ∃ sender, tx.sender host.crypto = .ok sender)

include readable recovered

/-- The EVM transactions ahead of the account of a sender all have their turn exactly when those
not behind it count on from there.
-/
theorem evmFuturesDue_iff {sender : Address}
    (distinct
      : (sentBy host.crypto sender block.body.transactions).Pairwise
          (fun left right => left.transaction.nonce ≠ right.transaction.nonce))
    : (∀ tx ∈ sentBy host.crypto sender block.evmTxs,
          view.nonceAt sender < tx.transaction.nonce →
          ∃ turn ∈ Loop.turns (evmTx host chainId) block.evmTxs (start host block.evmTxs view),
            turn.item = tx ∧ DueTurn host turn)
      ↔ CountsFrom (fun (tx : SignedTransaction) => tx.transaction.nonce) (view.nonceAt sender)
          (sentBy host.crypto sender (awaited host.crypto view block.evmTxs)) := by
  rw [sentBy_awaited, ← forall_taken_iff]
  · refine forall₂_congr fun tx member => imp_congr_right fun _ => ?_
    have isSender := of_decide_eq_true (List.mem_filter.mp member).2
    have due := (transact_countsNonce host chainId).exists_due_iff
      (senderReadable_start readable recovered) isSender
    rw [start_view] at due
    exact due
  · rw [sentBy_evmTxs]
    exact distinct.filter _

/-- Game actions have their turn where the counter of the second pass takes them. -/
theorem gameFuturesDue_iff (sender : Address)
    : (∀ tx ∈ sentBy host.crypto sender block.gameTxs,
          view.nonceAt sender < tx.transaction.nonce →
          ∃ turn ∈ Loop.turns (countTx host) block.gameTxs (runEvm host chainId block view).flush,
            turn.item = tx ∧ DueTurn host turn)
      ↔ ∀ tx ∈ sentBy host.crypto sender block.gameTxs,
          view.nonceAt sender < tx.transaction.nonce →
          tx ∈ taken (fun (tx : SignedTransaction) => tx.transaction.nonce)
            ((runEvm host chainId block view).flush.view.nonceAt sender)
            (sentBy host.crypto sender block.gameTxs) := by
  refine forall₂_congr fun tx member => imp_congr_right fun _ => ?_
  have isSender := of_decide_eq_true (List.mem_filter.mp member).2
  exact countAction_countsNonce.exists_due_iff
    (senderReadable_flush_runEvm readable recovered) isSender

/-- The transactions of a block that are ahead of their accounts all have their turn exactly when
they come in such an order.
-/
theorem futuresDue_iff
    (distinct
      : ∀ sender,
          (sentBy host.crypto sender block.body.transactions).Pairwise
            (fun left right => left.transaction.nonce ≠ right.transaction.nonce))
    : (∀ sender,
          (∀ tx ∈ sentBy host.crypto sender block.evmTxs,
              view.nonceAt sender < tx.transaction.nonce →
              ∃ turn ∈ Loop.turns (evmTx host chainId) block.evmTxs
                (start host block.evmTxs view),
                turn.item = tx ∧ DueTurn host turn)
          ∧ ∀ tx ∈ sentBy host.crypto sender block.gameTxs,
              view.nonceAt sender < tx.transaction.nonce →
              ∃ turn ∈ Loop.turns (countTx host) block.gameTxs
                (runEvm host chainId block view).flush,
                turn.item = tx ∧ DueTurn host turn)
      ↔ FuturesInTurn host chainId view block.body.transactions := by
  have evmIff (sender : Address) :=
    @evmFuturesDue_iff F host chainId block view readable recovered sender (distinct sender)
  have gameIff := @gameFuturesDue_iff F host chainId block view readable recovered
  have above (sender : Address) (first : Nat)
      := @forall_taken_above_iff _ (fun (tx : SignedTransaction) => tx.transaction.nonce)
        (sentBy host.crypto sender block.gameTxs) first
        (by
          rw [sentBy_gameTxs]
          exact (distinct sender).filter _)
        (view.nonceAt sender)
  constructor
  · intro all
    have contiguous : ContiguousNonces host.crypto view (awaited host.crypto view block.evmTxs) :=
      fun sender => (evmIff sender).mp (all sender).1
    refine ⟨contiguous, fun sender => ?_⟩
    have taken := (gameIff sender).mp (all sender).2
    rw [nonceAt_flush_of_awaited readable recovered contiguous, above] at taken
    exact taken
  · intro inTurn sender
    refine ⟨(evmIff sender).mpr (inTurn.evm sender), (gameIff sender).mpr ?_⟩
    rw [nonceAt_flush_of_awaited readable recovered inTurn.evm, above]
    exact inTurn.game sender

end Turns

end Ledger

-----------------------------------------------------------------------------------------
-- Production and application
-----------------------------------------------------------------------------------------

namespace Chain

section Turns

variable {F : Type} {host : Host F} {order : BlockOrder F} {block : Block} {chain : Chain F}

/-- The transaction has a turn in the block at which its nonce is that of its sender. -/
def ExecutesIn (host : Host F) (order : BlockOrder F) (block : Block) (chain : Chain F)
    (tx : SignedTransaction) : Prop :=
  (∃ turn ∈ chain.evmTurns host block, turn.item = tx ∧ chain.PassesNonceCheck host turn)
  ∨ ∃ turn ∈ chain.gameTurns host order block,
      turn.item = tx ∧ tx.isGameAction = true ∧ chain.PassesNonceCheck host turn

variable
  (recovered : ∀ tx ∈ block.body.transactions, ∃ sender, tx.sender host.crypto = .ok sender)
  (readable : (chain.accounts host).Readable)

include recovered readable

theorem executesIn_iff_of_evm {tx : SignedTransaction} (isEvm : tx.isGameAction = false)
    : chain.ExecutesIn host order block tx
      ↔ ∃ turn ∈ Loop.turns (Ledger.evmTx host chain.evm.chainId) block.evmTxs
          (.start host block.evmTxs (chain.accounts host)),
          turn.item = tx ∧ Ledger.DueTurn host turn := by
  obtain ⟨_, _, ledgers⟩ := evmTurns_ledgers recovered readable
  simp only [ExecutesIn, isEvm, Bool.false_eq_true, false_and, and_false, exists_false, or_false]
  rw [← ledgers]
  simp only [List.mem_map, exists_exists_and_eq_and]
  rfl

theorem executesIn_iff_of_game {tx : SignedTransaction} (isGame : tx.isGameAction = true)
    : chain.ExecutesIn host order block tx
      ↔ ∃ turn ∈ Loop.turns (Ledger.countTx host) block.gameTxs
          (Ledger.runEvm host chain.evm.chainId block (chain.accounts host)).flush,
          turn.item = tx ∧ Ledger.DueTurn host turn := by
  obtain ⟨evmVisits, _, _⟩ := evmTurns_ledgers recovered readable
  obtain ⟨_, ledgers⟩ := @gameTurns_ledgers F host order block chain recovered readable
  rw [Ledger.turns_countTx, ← ledgers]
  unfold ExecutesIn
  constructor
  · rintro (⟨turn, member, rfl, _⟩ | ⟨turn, member, rfl, _, passes⟩)
    · have listed := List.mem_map_of_mem (f := Loop.Turn.item) member
      rw [evmVisits] at listed
      simp [block.isGameAction_of_mem_evmTxs listed] at isGame
    · exact ⟨turn.map (Execution.ledger host chain.db),
        List.mem_filter.mpr ⟨List.mem_map_of_mem member, isGame⟩, rfl, passes⟩
  · rintro ⟨_, listed, item, due⟩
    obtain ⟨turn, member, rfl⟩ := List.mem_map.mp (List.mem_of_mem_filter listed)
    exact Or.inr ⟨turn, member, item, isGame, due⟩

end Turns

variable {F : Type} [F32 F] {host : Host F} {chain next : Chain F} {now : UInt64}
  {senders : IterationOrder Address SenderQueue} {order : BlockOrder F} {block : Block}

/-- A produced block has the selected transactions and has been applied. -/
theorem produceBlock_ok
    (produced : chain.produceBlock host now senders order = (.ok block, next))
    : block.body.transactions = (selectedTxs senders chain.txpool).1
      ∧ ∃ consensus, ({ chain with consensus } : Chain F).applyBlock host order block
          = (.ok (), next) := by
  unfold produceBlock at produced
  cases head : chain.head with
  | none => simp [head] at produced
  | some parent =>
      rcases prepared : chain.consensus.prepareHeader host.crypto now parent
        with ⟨_ | header, consensus⟩
      · simp [head, prepared] at produced
      · have gasLimit : header.gasLimit = defaultBlockGasLimit := by
          unfold PoaConsensus.prepareHeader at prepared
          split at prepared
          next => simp at prepared
          next =>
            split at prepared
            next => simp at prepared
            next =>
              obtain ⟨isHeader, _⟩ := Prod.mk.inj prepared
              rw [← Except.ok.inj isHeader]
              rfl
        simp only [head, prepared, gasLimit] at produced
        split at produced
        next => simp at produced
        next sealed isSealed =>
          split at produced
          next => simp at produced
          next applied =>
            obtain ⟨isBlock, rfl⟩ := Prod.mk.inj produced
            obtain rfl := Except.ok.inj isBlock
            refine ⟨?_, consensus, applied⟩
            unfold PoaConsensus.sealBlock at isSealed
            split at isSealed
            next => simp at isSealed
            next =>
              split at isSealed
              next => simp at isSealed
              next =>
                rw [← Except.ok.inj isSealed]
                rfl

/-- Every pooled transaction whose nonce is ahead of its account is executed in the block with a
matching nonce, or is in the pool afterwards.
-/
def FuturesSurvive (host : Host F) (order : BlockOrder F) (block : Block) (chain next : Chain F)
    : Prop :=
  ∀ tx sender,
    chain.txpool.Contains tx →
    tx.sender host.crypto = .ok sender →
    (chain.accounts host).nonceAt sender < tx.transaction.nonce →
    chain.ExecutesIn host order block tx ∨ next.txpool.Contains tx

omit [F32 F] in
/-- A block takes its transactions out of the pool, so the ones that are ahead survive exactly when
those in the block are executed.
-/
theorem futuresSurvive_iff_executed
    (pooled : ∀ tx ∈ block.body.transactions, chain.txpool.Contains tx)
    (included
      : next.txpool
        = chain.txpool.removeIncluded host.crypto
            (block.body.transactions.map SignedTransaction.hash))
    : chain.FuturesSurvive host order block next
      ↔ ∀ sender, ∀ tx ∈ sentBy host.crypto sender block.body.transactions,
          (chain.accounts host).nonceAt sender < tx.transaction.nonce →
          chain.ExecutesIn host order block tx := by
  constructor
  · intro survive sender tx sent ahead
    obtain ⟨member, isSender⟩ := List.mem_filter.mp sent
    rcases survive tx sender (pooled tx member) (of_decide_eq_true isSender) ahead
      with executes | stays
    · exact executes
    · rw [included, TransactionPool.contains_removeIncluded] at stays
      exact absurd (List.mem_map_of_mem member) stays.1
  · intro all tx sender contains isSender ahead
    by_cases listed : tx.hash ∈ block.body.transactions.map SignedTransaction.hash
    · obtain ⟨other, member, sameHash⟩ := List.mem_map.mp listed
      have found := pooled other member
      unfold TransactionPool.Contains at contains found
      rw [sameHash, contains] at found
      obtain rfl := Option.some.inj found
      exact Or.inl (all sender tx (List.mem_filter.mpr ⟨member, decide_eq_true isSender⟩) ahead)
    · rw [included, TransactionPool.contains_removeIncluded]
      exact Or.inr ⟨listed, contains⟩

/-- With readable accounts and any pool that operations lead to, the pooled transactions that are
ahead of their accounts survive a produced block exactly when the selected ones come in an order
in which each of them is due at its turn.
-/
theorem futuresSurvive_iff (readable : (chain.accounts host).Readable) {maxSize : Nat}
    {poolOps : List PoolOp}
    (isPool : chain.txpool = poolOps.foldl (PoolOp.run host.crypto) (.withMaxSize maxSize))
    (produced : chain.produceBlock host now senders order = (.ok block, next))
    : chain.FuturesSurvive host order block next
      ↔ Ledger.FuturesInTurn host chain.evm.chainId (chain.accounts host)
          (selectedTxs senders chain.txpool).1 := by
  obtain ⟨body, consensus, applied⟩ := produceBlock_ok produced
  obtain ⟨accepted, rfl⟩ := applyBlock_ok_iff.mp applied
  have consistent : chain.txpool.Consistent host.crypto maxSize :=
    isPool ▸ (TransactionPool.consistent_withMaxSize host.crypto maxSize).foldl_run poolOps
  have filed := consistent.filed
  have pending (tx : SignedTransaction) (member : tx ∈ block.body.transactions)
      : tx ∈ chain.txpool.getPending senders 1000 := by
    rw [body] at member
    exact selectTxs_subset member
  have recovered (tx : SignedTransaction) (member : tx ∈ block.body.transactions)
      : ∃ sender, tx.sender host.crypto = .ok sender :=
    filed.sender_getPending (pending tx member)
  have pooled (tx : SignedTransaction) (member : tx ∈ block.body.transactions)
      : chain.txpool.Contains tx := by
    obtain ⟨sender, nonce, found⟩ := TransactionPool.mem_getPending (pending tx member)
    exact (consistent.same.queued sender nonce tx found).2.2
  have distinct (sender : Address)
      : (sentBy host.crypto sender block.body.transactions).Pairwise
          (fun left right => left.transaction.nonce ≠ right.transaction.nonce) := by
    rw [body]
    exact (filed.distinct_getPending 1000 sender).sublist
      ((prefix_selectTxs defaultBlockGasLimit 0 _).sublist.filter _)
  rw [futuresSurvive_iff_executed pooled rfl, ← body,
    ← Ledger.futuresDue_iff readable recovered distinct]
  refine forall_congr' fun sender => ?_
  rw [Ledger.sentBy_evmTxs, Ledger.sentBy_gameTxs]
  simp only [List.mem_filter, and_imp, Bool.not_eq_true']
  constructor
  · intro all
    refine ⟨fun tx sent isEvm ahead => ?_, fun tx sent isGame ahead => ?_⟩
    · exact (executesIn_iff_of_evm recovered readable isEvm).mp (all tx sent ahead)
    · exact (executesIn_iff_of_game recovered readable isGame).mp (all tx sent ahead)
  · rintro ⟨evm, game⟩ tx sent ahead
    cases kind : tx.isGameAction with
    | false =>
        exact (executesIn_iff_of_evm recovered readable kind).mpr (evm tx sent kind ahead)
    | true =>
        exact (executesIn_iff_of_game recovered readable kind).mpr (game tx sent kind ahead)

-----------------------------------------------------------------------------------------
-- A transaction that is one nonce ahead
-----------------------------------------------------------------------------------------

/-- The only transaction in the pool is a transfer of account 9 with nonce 1; the account has
nonce 0.
-/
def aheadOps : List PoolOp := [.addTransaction (.transfer 9 1 1 4 5)]

def aheadChain : Chain Milli :=
  { walletChain with
    txpool := aheadOps.foldl (PoolOp.run .disclosing) (.withMaxSize defaultMaxPoolSize) }

/-- What the validator makes of it. -/
def aheadProduced : Except NodeError Block × Chain Milli :=
  aheadChain.produceBlock (.reference []) 5 sendersAscending (.ascending Milli)

def aheadBlock : Block := aheadProduced.1.toOption.getD (Block.new (.genesis 0) [])

theorem produced_ahead : aheadProduced = (.ok aheadBlock, aheadProduced.2) :=
  Loop.eq_of_ok (by decide +kernel)

theorem futuresSurvive_iff_ahead
    : aheadChain.FuturesSurvive (.reference []) (.ascending Milli) aheadBlock aheadProduced.2
      ↔ Ledger.FuturesInTurn (.reference []) aheadChain.evm.chainId
          (aheadChain.accounts (.reference []))
          (selectedTxs sendersAscending aheadChain.txpool).1 := by
  have isPool
      : aheadChain.txpool
        = aheadOps.foldl (PoolOp.run .disclosing) (.withMaxSize defaultMaxPoolSize) :=
    rfl
  exact futuresSurvive_iff readable_walletChain isPool produced_ahead

/-- The transfer is selected, skipped and taken out of the pool. -/
theorem futuresSurvive_fails_on_ahead
    : ¬ ∀ (host : Host Milli) (chain next : Chain Milli) (now : UInt64)
          (senders : IterationOrder Address SenderQueue) (order : BlockOrder Milli)
          (block : Block) (maxSize : Nat) (poolOps : List PoolOp),
        (chain.accounts host).Readable
        → chain.txpool = poolOps.foldl (PoolOp.run host.crypto) (.withMaxSize maxSize)
        → chain.produceBlock host now senders order = (.ok block, next)
        → chain.FuturesSurvive host order block next := by
  intro claimed
  have survive := claimed (.reference []) aheadChain aheadProduced.2 5 sendersAscending
    (.ascending Milli) aheadBlock defaultMaxPoolSize aheadOps readable_walletChain rfl
    produced_ahead (.transfer 9 1 1 4 5) 9 (by unfold TransactionPool.Contains; decide +kernel)
    (by decide +kernel) (by decide +kernel)
  have skipped
      : ∀ turn ∈ aheadChain.evmTurns (.reference []) aheadBlock,
          ¬ aheadChain.PassesNonceCheck (.reference []) turn := by
    decide +kernel
  rcases survive with (⟨turn, member, _, passes⟩ | ⟨_, _, _, isGame, _⟩) | stays
  · exact skipped turn member passes
  · exact absurd isGame (by decide +kernel)
  · unfold TransactionPool.Contains at stays
    exact absurd stays (by decide +kernel)

end Chain

end VeloChain
