import VeloChain.Lib.CountedList
import VeloChain.Node.NonceAccounting

/-! The nonce checks of a block with both kinds of transactions.
A pass takes all its transactions exactly when those of each sender count on from its account.
The EVM transactions of a block have their pass first, so that both passes take all of it only
where no sender has a game action before an EVM transaction.
-/

namespace VeloChain

open AccountView CountedList

/-- The transactions of each sender have contiguous nonces that start at that of its account. -/
def ContiguousNonces (crypto : Crypto) (view : AccountView StateError)
    (txs : List SignedTransaction) : Prop :=
  ∀ sender,
    CountsFrom (fun (tx : SignedTransaction) => tx.transaction.nonce) (view.nonceAt sender)
      (sentBy crypto sender txs)

namespace Ledger

variable {F : Type} {host : Host F}
  {effect : Address → SignedTransaction → Ledger → Ledger}

-----------------------------------------------------------------------------------------
-- One pass
-----------------------------------------------------------------------------------------

/-- The transaction of the turn has the nonce of its sender. -/
def DueTurn (host : Host F) (turn : Loop.Turn SignedTransaction Ledger) : Prop :=
  ∃ sender, Due host.crypto turn.before.view turn.item sender

/-- A guarded pass takes every transaction exactly when the transactions of each sender count on
from its account, by induction on the list.
-/
theorem CountsNonce.dueTurns_iff (counts : CountsNonce effect) {txs : List SignedTransaction}
    {ledger : Ledger} (readable : ∀ tx ∈ txs, SenderReadable host.crypto ledger.view tx)
    : (∀ turn ∈ Loop.turns (Ledger.guarded host effect) txs ledger, DueTurn host turn)
      ↔ ContiguousNonces host.crypto ledger.view txs := by
  induction txs generalizing ledger with
  | nil => exact iff_of_true (by simp) (fun _ => countsFrom_nil _)
  | cons tx rest ih =>
      obtain ⟨here, later⟩ := List.forall_mem_cons.mp readable
      rcases turn_cases host.crypto ledger.view tx with refused | stale | ⟨sender, due⟩
      · exact absurd here refused
      · rw [Loop.turns_cons_ok (guarded_of_stale stale)]
        refine iff_of_false ?_ ?_
        · intro all
          obtain ⟨_, due⟩ := all _ List.mem_cons_self
          exact due.not_stale stale
        · intro contiguous
          obtain ⟨sender, n, recovered, read, ne⟩ := stale
          have first := contiguous sender
          rw [sentBy_cons_of_sender recovered, nonceAt_eq read] at first
          exact ne (countsFrom_cons.mp first).1
      · have turn := @guarded_of_due _ host effect ledger tx sender due
        have kept := (counts.guarded host tx ledger).2
        rw [turn] at kept
        have rest_ := @ih (effect sender tx ledger)
          (fun other member => (senderReadable_congr kept).mpr (later other member))
        rw [Loop.turns_cons_ok turn, List.forall_mem_cons, rest_]
        have counted := nonceAt_eq (counts.self sender tx ledger _ due.nonce)
        have others (other : Address) (ne : other ≠ sender)
            : (effect sender tx ledger).view.nonceAt other = ledger.view.nonceAt other := by
          rw [nonceAt, counts.other sender tx ledger other ne, nonceAt]
        constructor
        · rintro ⟨_, contiguous⟩ other
          by_cases same : other = sender
          · subst same
            have tail := contiguous other
            rw [counted] at tail
            rw [sentBy_cons_of_sender due.recovered, nonceAt_eq due.nonce]
            exact countsFrom_cons.mpr ⟨rfl, tail⟩
          · rw [sentBy_cons_of_ne due.recovered same, ← others other same]
            exact contiguous other
        · intro contiguous
          refine ⟨⟨sender, due⟩, fun other => ?_⟩
          by_cases same : other = sender
          · subst same
            have all := contiguous other
            rw [sentBy_cons_of_sender due.recovered, nonceAt_eq due.nonce] at all
            rw [counted]
            exact (countsFrom_cons.mp all).2
          · rw [others other same, ← sentBy_cons_of_ne due.recovered same]
            exact contiguous other

/-- A turn of a pass that takes all its transactions, and the rest of the pass. -/
theorem guarded_cons_of_dueTurns {tx : SignedTransaction} {rest : List SignedTransaction}
    {ledger : Ledger}
    (due
      : ∀ turn ∈ Loop.turns (guarded host effect) (tx :: rest) ledger, DueTurn host turn)
    : ∃ sender,
        Due host.crypto ledger.view tx sender
        ∧ Loop.turns (guarded host effect) (tx :: rest) ledger
          = ⟨tx, ledger, effect sender tx ledger⟩
            :: Loop.turns (guarded host effect) rest (effect sender tx ledger)
        ∧ Loop.run (guarded host effect) (tx :: rest) ledger
          = Loop.run (guarded host effect) rest (effect sender tx ledger) := by
  obtain ⟨turn, member, item, before⟩ :=
    Loop.exists_first_turn (guarded host effect) tx rest ledger
  obtain ⟨sender, first⟩ := due turn member
  rw [item, before] at first
  have call := @guarded_of_due _ host effect ledger tx sender first
  exact ⟨sender, first, Loop.turns_cons_ok call, Loop.run_cons_ok call⟩

/-- A pass that takes all its transactions counts each at its sender. -/
theorem CountsNonce.nonceAt_run (counts : CountsNonce effect) {txs : List SignedTransaction}
    {ledger : Ledger}
    (due : ∀ turn ∈ Loop.turns (Ledger.guarded host effect) txs ledger, DueTurn host turn)
    {sender : Address} (readable : ledger.view.ReadableAt sender)
    : (Loop.run (Ledger.guarded host effect) txs ledger).2.view.nonceAt sender
      = ledger.view.nonceAt sender + (sentBy host.crypto sender txs).length := by
  induction txs generalizing ledger with
  | nil => rfl
  | cons tx rest ih =>
      obtain ⟨other, first, turns, run⟩ := guarded_cons_of_dueTurns due
      rw [turns, List.forall_mem_cons] at due
      have call := @guarded_of_due _ host effect ledger tx other first
      obtain ⟨kept, total⟩ := counts.nonceAt_turn readable call
      rw [run, ih due.2 kept, total]
      by_cases same : sender = other
      · subst same
        rw [if_pos first, sentBy_cons_of_sender first.recovered, List.length_cons]
        omega
      · have notDue : ¬ Due host.crypto ledger.view tx sender :=
          fun own => same (Except.ok.inj (own.recovered.symm.trans first.recovered))
        rw [if_neg notDue, sentBy_cons_of_ne first.recovered same, Nat.add_zero]

-----------------------------------------------------------------------------------------
-- The EVM pass
-----------------------------------------------------------------------------------------

section Interpret

variable (host : Host F) (chainId : UInt64)

/-- The interpreter, run over transactions one after another. -/
def interpret (txs : List SignedTransaction) (db : CacheDb) : CacheDb :=
  txs.foldl (fun db tx =>
    match tx.sender host.crypto with
    | .error _ => db
    | .ok sender =>
        (host.revm.transactCommit chainId (EvmExecutor.txEnv sender tx.transaction) db).2) db

/-- The transaction of the turn is due and not rejected. -/
def AcceptedTurn (turn : Loop.Turn SignedTransaction Ledger) : Prop :=
  ∃ sender,
    Due host.crypto turn.before.view turn.item sender
    ∧ Rejects host chainId sender turn.item turn.before.db = false

end Interpret

/-- To the EVM database, an EVM pass that takes all its transactions is a run of the interpreter,
by induction on the list.
-/
theorem db_run_evmTx {chainId : UInt64} {txs : List SignedTransaction} {ledger : Ledger}
    (due : ∀ turn ∈ Loop.turns (evmTx host chainId) txs ledger, DueTurn host turn)
    : (Loop.run (evmTx host chainId) txs ledger).2.db
      = interpret host chainId txs ledger.db := by
  induction txs generalizing ledger with
  | nil => rfl
  | cons tx rest ih =>
      obtain ⟨sender, first, turns, run⟩ := guarded_cons_of_dueTurns due
      change Loop.turns (evmTx host chainId) (tx :: rest) ledger = _ at turns
      change Loop.run (evmTx host chainId) (tx :: rest) ledger = _ at run
      rw [turns, List.forall_mem_cons] at due
      rw [run]
      refine (ih due.2).trans ?_
      rw [interpret, interpret, List.foldl_cons, first.recovered]
      rfl

theorem AcceptedTurn.due {chainId : UInt64} {turn : Loop.Turn SignedTransaction Ledger}
    (accepted : AcceptedTurn host chainId turn)
    : DueTurn host turn := by
  obtain ⟨sender, due, _⟩ := accepted
  exact ⟨sender, due⟩

/-- An EVM pass that takes all its transactions, none of which is rejected, counts each at its
sender in the EVM database.
-/
theorem nonce_infoOf_run_evmTx {chainId : UInt64} {signers : Set Address}
    (counts : host.revm.CountsCallers signers) {txs : List SignedTransaction} {ledger : Ledger}
    (signed : ∀ tx ∈ txs, ∀ sender, tx.sender host.crypto = .ok sender → sender ∈ signers)
    (accepted
      : ∀ turn ∈ Loop.turns (evmTx host chainId) txs ledger, AcceptedTurn host chainId turn)
    {sender : Address} (signs : sender ∈ signers)
    : ((Loop.run (evmTx host chainId) txs ledger).2.db.infoOf sender).nonce
      = (ledger.db.infoOf sender).nonce + (sentBy host.crypto sender txs).length := by
  induction txs generalizing ledger with
  | nil => rfl
  | cons tx rest ih =>
      obtain ⟨other, first, turns, run⟩ :=
        guarded_cons_of_dueTurns (fun turn member => (accepted turn member).due)
      change Loop.turns (evmTx host chainId) (tx :: rest) ledger = _ at turns
      change Loop.run (evmTx host chainId) (tx :: rest) ledger = _ at run
      rw [turns, List.forall_mem_cons] at accepted
      obtain ⟨⟨other', first', taken⟩, later⟩ := accepted
      obtain rfl := Except.ok.inj (first.recovered.symm.trans first'.recovered)
      rw [run]
      refine (ih (fun tx' member => signed tx' (List.mem_cons_of_mem tx member)) later).trans ?_
      have call : ledger.evmTx host chainId tx = _ := guarded_of_due first
      have total := nonce_infoOf_turn counts signs (signed tx List.mem_cons_self) call
      by_cases same : sender = other
      · subst same
        rw [if_neg (by simp [taken]), if_pos first] at total
        rw [sentBy_cons_of_sender first.recovered, List.length_cons]
        omega
      · have notDue : ¬ Due host.crypto ledger.view tx sender :=
          fun own => same (Except.ok.inj (own.recovered.symm.trans first.recovered))
        rw [if_neg (fun both => notDue both.1), if_neg notDue] at total
        rw [sentBy_cons_of_ne first.recovered same]
        omega

-----------------------------------------------------------------------------------------
-- Both passes
-----------------------------------------------------------------------------------------

/-- The kinds of the transactions are in an order that the passes can follow: no sender has a
game action before an EVM transaction, and the interpreter makes no entry with nonce zero for
the sender of a game action whose account has another nonce.
-/
structure KindsInOrder (host : Host F) (chainId : UInt64) (block : Block)
    (view : AccountView StateError) : Prop where
  evmFirst
    : ∀ sender,
        (sentBy host.crypto sender block.body.transactions).Pairwise (fun earlier later =>
          earlier.isGameAction = true → later.isGameAction = true)
  notEntered
    : ∀ sender,
        sender
            ∈ (interpret host chainId block.evmTxs (start host block.evmTxs view).db).accounts →
          (∃ tx ∈ block.gameTxs, tx.sender host.crypto = .ok sender) →
          (∃ tx ∈ block.evmTxs, Names host tx sender) ∨ view.nonceAt sender = 0

theorem sentBy_evmTxs (crypto : Crypto) (sender : Address) (block : Block)
    : sentBy crypto sender block.evmTxs
      = (sentBy crypto sender block.body.transactions).filter (fun tx => !tx.isGameAction) := by
  unfold sentBy Block.evmTxs
  rw [List.filter_filter, List.filter_filter]
  simp only [Bool.and_comm]

theorem sentBy_gameTxs (crypto : Crypto) (sender : Address) (block : Block)
    : sentBy crypto sender block.gameTxs
      = (sentBy crypto sender block.body.transactions).filter
          SignedTransaction.isGameAction := by
  unfold sentBy Block.gameTxs
  rw [List.filter_filter, List.filter_filter]
  simp only [Bool.and_comm]

/-- The turns of the game actions in a game pass over a block. -/
theorem turns_countTx (block : Block) (ledger : Ledger)
    : Loop.turns (countTx host) block.gameTxs ledger
      = (Loop.turns (gameTx host) block.body.transactions ledger).filter
          (fun turn => turn.item.isGameAction) := by
  have skips : ∀ tx ∈ block.body.transactions, tx.isGameAction = false →
      ∀ ledger, gameTx host tx ledger = (.ok (), ledger) :=
    fun tx _ other ledger => by simp only [gameTx, other, Bool.false_eq_true, if_false]
  have same : ∀ tx ∈ block.gameTxs, ∀ ledger, countTx host tx ledger = gameTx host tx ledger :=
    fun tx member ledger => by
      simp only [gameTx, (List.mem_filter.mp member).2, if_true]
  rw [Loop.turns_congr same]
  exact Loop.turns_filter skips

section Block

variable {chainId : UInt64} {block : Block} {view : AccountView StateError}

/-- The senders of the EVM transactions can be read where the EVM pass starts. -/
theorem senderReadable_start (readable : view.Readable)
    (recovered : ∀ tx ∈ block.body.transactions, ∃ sender, tx.sender host.crypto = .ok sender)
    (tx : SignedTransaction) (member : tx ∈ block.evmTxs)
    : SenderReadable host.crypto (start host block.evmTxs view).view tx := by
  obtain ⟨sender, isSender⟩ := recovered tx (List.mem_of_mem_filter member)
  rw [start_view]
  exact ⟨sender, isSender, readable sender⟩

/-- Those of the game actions can be read where the game pass starts. -/
theorem senderReadable_flush_runEvm (readable : view.Readable)
    (recovered : ∀ tx ∈ block.body.transactions, ∃ sender, tx.sender host.crypto = .ok sender)
    (tx : SignedTransaction) (member : tx ∈ block.gameTxs)
    : SenderReadable host.crypto (runEvm host chainId block view).flush.view tx := by
  obtain ⟨sender, isSender⟩ := recovered tx (List.mem_of_mem_filter member)
  refine ⟨sender, isSender, readableAt_flush ?_⟩
  exact (Chain.sameReadable_runEvm chainId view sender).mpr (readable sender)

/-- The nonces after an EVM pass that takes all its transactions and their flush: an entry
that was not loaded replaces the nonce of its account by zero.
-/
theorem nonceAt_flush_runEvm (counts : host.revm.CountsCallers (block.signers host.crypto))
    (readable : view.Readable)
    (accepted
      : ∀ turn ∈ Loop.turns (evmTx host chainId) block.evmTxs (start host block.evmTxs view),
          AcceptedTurn host chainId turn)
    {sender : Address} (signs : sender ∈ block.signers host.crypto)
    : (runEvm host chainId block view).flush.view.nonceAt sender
        = view.nonceAt sender + (sentBy host.crypto sender block.evmTxs).length
      ↔ (sender
            ∈ (interpret host chainId block.evmTxs (start host block.evmTxs view).db).accounts →
          (∃ tx ∈ block.evmTxs, Names host tx sender) ∨ view.nonceAt sender = 0) := by
  have dueTurns (turn)
      (member
        : turn ∈ Loop.turns (evmTx host chainId) block.evmTxs (start host block.evmTxs view))
      : DueTurn host turn :=
    (accepted turn member).due
  have signed (tx : SignedTransaction) (member : tx ∈ block.evmTxs) (other : Address)
      (recovered : tx.sender host.crypto = .ok other)
      : other ∈ block.signers host.crypto :=
    ⟨tx, List.mem_of_mem_filter member, recovered⟩
  have sameDb : (runEvm host chainId block view).db = _ := db_run_evmTx dueTurns
  have evmCount : ((runEvm host chainId block view).db.infoOf sender).nonce = _ :=
    nonce_infoOf_run_evmTx counts signed accepted signs
  have readableEnd : (runEvm host chainId block view).view.ReadableAt sender :=
    (Chain.sameReadable_runEvm chainId view sender).mpr (readable sender)
  have worldCount
      : (runEvm host chainId block view).view.nonceAt sender
        = view.nonceAt sender + (sentBy host.crypto sender block.evmTxs).length := by
    have total := (transact_countsNonce host chainId).nonceAt_run dueTurns
      (by rw [start_view]; exact readable sender)
    rw [start_view] at total
    exact total
  rw [nonceAt_flush readableEnd, ← sameDb]
  by_cases entered : sender ∈ (runEvm host chainId block view).db.accounts
  · rw [if_pos entered, evmCount]
    simp only [entered, true_imp_iff, Nat.add_right_cancel_iff]
    by_cases named : ∃ tx ∈ block.evmTxs, Names host tx sender
    · rw [nonce_infoOf_start (readable sender) named]
      exact iff_of_true rfl (Or.inl named)
    · rw [nonce_infoOf_start_unnamed named]
      simp only [named, false_or, eq_comm]
  · rw [if_neg entered]
    exact iff_of_true worldCount (fun member => absurd member entered)

/-- Both passes over a block take all its transactions exactly when their kinds are in order. -/
theorem dueTurns_iff_kindsInOrder
    (counts : host.revm.CountsCallers (block.signers host.crypto)) (readable : view.Readable)
    (recovered : ∀ tx ∈ block.body.transactions, ∃ sender, tx.sender host.crypto = .ok sender)
    (contiguous : ContiguousNonces host.crypto view block.body.transactions)
    (accepted
      : ∀ turn ∈ Loop.turns (evmTx host chainId) block.evmTxs (start host block.evmTxs view),
          DueTurn host turn → AcceptedTurn host chainId turn)
    : (∀ turn ∈ Loop.turns (evmTx host chainId) block.evmTxs (start host block.evmTxs view),
          DueTurn host turn)
        ∧ (∀ turn ∈ Loop.turns (countTx host) block.gameTxs
              (runEvm host chainId block view).flush,
            DueTurn host turn)
      ↔ KindsInOrder host chainId block view := by
  have evmIff
      : (∀ turn ∈ Loop.turns (evmTx host chainId) block.evmTxs (start host block.evmTxs view),
          DueTurn host turn)
        ↔ ∀ sender,
            (sentBy host.crypto sender block.body.transactions).Pairwise (fun earlier later =>
              earlier.isGameAction = true → later.isGameAction = true) := by
    refine ((transact_countsNonce host chainId).dueTurns_iff
      (senderReadable_start readable recovered)).trans ?_
    rw [start_view]
    apply forall_congr'
    intro sender
    rw [sentBy_evmTxs]
    exact (contiguous sender).filter_iff
  have gameIff := countAction_countsNonce.dueTurns_iff
    (@senderReadable_flush_runEvm F host chainId block view readable recovered)
  have split
      (evmDue
        : ∀ turn ∈ Loop.turns (evmTx host chainId) block.evmTxs (start host block.evmTxs view),
            DueTurn host turn)
      : ContiguousNonces host.crypto (runEvm host chainId block view).flush.view block.gameTxs
        ↔ ∀ sender,
            sender
                ∈ (interpret host chainId block.evmTxs
                    (start host block.evmTxs view).db).accounts →
              (∃ tx ∈ block.gameTxs, tx.sender host.crypto = .ok sender) →
              (∃ tx ∈ block.evmTxs, Names host tx sender) ∨ view.nonceAt sender = 0 := by
    apply forall_congr'
    intro sender
    have late := (contiguous sender).filter_late (evmIff.mp evmDue sender)
    rw [← sentBy_evmTxs, ← sentBy_gameTxs] at late
    by_cases some_ : ∃ tx ∈ block.gameTxs, tx.sender host.crypto = .ok sender
    · have ⟨tx, member, isSender⟩ := some_
      have signs : sender ∈ block.signers host.crypto :=
        ⟨tx, List.mem_of_mem_filter member, isSender⟩
      have nonempty : sentBy host.crypto sender block.gameTxs ≠ [] :=
        List.ne_nil_of_mem (List.mem_filter.mpr ⟨member, decide_eq_true isSender⟩)
      rw [late.iff_eq nonempty, nonceAt_flush_runEvm counts readable
        (fun turn member => accepted turn member (evmDue turn member)) signs]
      exact forall_congr' fun _ => (imp_iff_right some_).symm
    · have empty : sentBy host.crypto sender block.gameTxs = [] := by
        rw [sentBy, List.filter_eq_nil_iff]
        intro tx member isSender
        exact some_ ⟨tx, member, of_decide_eq_true isSender⟩
      rw [empty]
      exact iff_of_true (countsFrom_nil _) (fun _ known => absurd known some_)
  constructor
  · rintro ⟨evmDue, gameDue⟩
    exact ⟨evmIff.mp evmDue, (split evmDue).mp (gameIff.mp gameDue)⟩
  · intro inOrder
    have evmDue := evmIff.mpr inOrder.evmFirst
    exact ⟨evmDue, gameIff.mpr ((split evmDue).mpr inOrder.notEntered)⟩

end Block

end Ledger

-----------------------------------------------------------------------------------------
-- Application of a block
-----------------------------------------------------------------------------------------

namespace Chain

variable {F : Type}

/-- The transaction of the turn passes the nonce check: it has the nonce that its sender has in
the world state.
-/
def PassesNonceCheck (host : Host F) (chain : Chain F)
    (turn : Loop.Turn SignedTransaction Execution) : Prop :=
  ∃ sender, Due host.crypto (turn.before.ledger host chain.db).view turn.item sender

/-- Every transaction of the block gets its turn and passes its nonce check. -/
structure AllNoncesPass (host : Host F) (order : BlockOrder F) (block : Block)
    (chain : Chain F) : Prop where
  evmVisits : (chain.evmTurns host block).map Loop.Turn.item = block.evmTxs
  evm : ∀ turn ∈ chain.evmTurns host block, chain.PassesNonceCheck host turn
  gameVisits
    : (chain.gameTurns host order block).map Loop.Turn.item = block.body.transactions
  game
    : ∀ turn ∈ chain.gameTurns host order block, turn.item.isGameAction = true →
        chain.PassesNonceCheck host turn

/-- The transaction of the turn executes successfully. -/
def Executes (host : Host F) (turn : Loop.Turn SignedTransaction Execution) : Prop :=
  ∃ outcome,
    (turn.before.evm.executeTx host.crypto host.revm turn.item).1 = .ok outcome
    ∧ outcome.success = true

/-- Every EVM transaction that passes its nonce check executes successfully. -/
def EvmSucceeds (host : Host F) (block : Block) (chain : Chain F) : Prop :=
  ∀ turn ∈ chain.evmTurns host block, chain.PassesNonceCheck host turn → Executes host turn

variable {host : Host F} {order : BlockOrder F} {block : Block} {chain : Chain F}

section Recovered

variable
  (recovered : ∀ tx ∈ block.body.transactions, ∃ sender, tx.sender host.crypto = .ok sender)
  (readable : (chain.accounts host).Readable)

include recovered readable

theorem senderReadable_of_recovered (tx : SignedTransaction)
    (member : tx ∈ block.body.transactions)
    : SenderReadable host.crypto (chain.accounts host) tx := by
  obtain ⟨sender, isSender⟩ := recovered tx member
  exact ⟨sender, isSender, readable sender⟩

/-- The EVM pass starts with the EVM transactions of the block. -/
theorem evmStart_of_recovered
    : (Partition.ofBlock host.crypto block).2.evmTxs = block.evmTxs
      ∧ ∃ gasUsed,
          chain.evmStart host block
          = .start host chain.db block.evmTxs gasUsed chain.evm chain.state := by
  obtain ⟨parts, partitioned, evmTxs, _⟩ :=
    partitioned_of_readable (senderReadable_of_recovered recovered readable)
  unfold evmStart
  rw [partitioned]
  simp only [evmTxs, true_and]
  exact ⟨_, rfl⟩

/-- The EVM pass visits the EVM transactions of the block, under the chain id of the node, and
is seen from the ledger.
-/
theorem evmTurns_ledgers
    : (chain.evmTurns host block).map Loop.Turn.item = block.evmTxs
      ∧ (∀ turn ∈ chain.evmTurns host block, turn.before.evm.chainId = chain.evm.chainId)
      ∧ (chain.evmTurns host block).map (Loop.Turn.map (Execution.ledger host chain.db))
        = Loop.turns (Ledger.evmTx host chain.evm.chainId) block.evmTxs
            (.start host block.evmTxs (chain.accounts host)) := by
  obtain ⟨isTxs, gasUsed, starts⟩ := evmStart_of_recovered recovered readable
  obtain ⟨started, sameId⟩ := Execution.start_refines host chain.db block.evmTxs gasUsed
    chain.evm chain.state
  obtain ⟨evmOk, _⟩ := @Execution.runEvm_ok_iff F host chain.db block gasUsed chain.evm
    chain.state
  rw [← starts] at started sameId evmOk
  have step (tx : SignedTransaction) (member : tx ∈ block.evmTxs) (x : Execution)
      (held : x.evm.chainId = chain.evm.chainId)
      : (x.ledger host chain.db).evmTx host chain.evm.chainId tx
          = ((Execution.executeEvmTx host chain.db block tx x).1,
              (Execution.executeEvmTx host chain.db block tx x).2.ledger host chain.db)
        ∧ (Execution.executeEvmTx host chain.db block tx x).2.evm.chainId
          = chain.evm.chainId := by
    obtain ⟨result, ledger, kept⟩ := Execution.executeEvmTx_refines host chain.db block
      (block.isGameAction_of_mem_evmTxs member) x
    rw [held] at result ledger kept
    exact ⟨Prod.ext result.symm ledger.symm, kept⟩
  unfold evmTurns
  rw [isTxs]
  refine ⟨?_, ?_, ?_⟩
  · apply Loop.turns_items
    apply Loop.eq_of_ok
    apply evmOk.mpr
    intro tx member
    exact senderReadable_of_recovered recovered readable tx (List.mem_of_mem_filter member)
  · exact Loop.turns_invariant (fun (x : Execution) => x.evm.chainId = chain.evm.chainId)
      (fun tx member x held => (step tx member x held).2) sameId
  · change _ = Loop.turns (Ledger.evmTx host chain.evm.chainId) block.evmTxs
      (.start host block.evmTxs (chain.state.view host.account chain.db))
    rw [← started]
    exact Loop.turns_map (Execution.ledger host chain.db)
      (fun (x : Execution) => x.evm.chainId = chain.evm.chainId) step sameId

/-- The game pass visits the transactions of the block from the flushed ledger on. -/
theorem gameTurns_ledgers
    : (chain.gameTurns host order block).map Loop.Turn.item = block.body.transactions
      ∧ (chain.gameTurns host order block).map (Loop.Turn.map (Execution.ledger host chain.db))
        = Loop.turns (Ledger.gameTx host) block.body.transactions
            (Ledger.runEvm host chain.evm.chainId block (chain.accounts host)).flush := by
  obtain ⟨isTxs, gasUsed, starts⟩ := evmStart_of_recovered recovered readable
  obtain ⟨_, evmLedger⟩ := @Execution.runEvm_start F host chain.db block gasUsed chain.evm
    chain.state
  rw [← starts] at evmLedger
  have isEnd
      : (chain.evmEnd host block).ledger host chain.db
        = Ledger.runEvm host chain.evm.chainId block (chain.accounts host) := by
    rw [evmEnd, isTxs]
    exact evmLedger
  have readableEnd (address : Address)
      : (Ledger.runEvm host chain.evm.chainId block
          (chain.accounts host)).view.ReadableAt address :=
    (sameReadable_runEvm _ _ address).mpr (readable address)
  have flushed
      : (chain.gameStart host order block).ledger host chain.db
        = (Ledger.runEvm host chain.evm.chainId block (chain.accounts host)).flush := by
    rw [← isEnd] at readableEnd ⊢
    exact Execution.flush_refines host chain.db order.evmAccounts (chain.evmEnd host block)
      (fun address _ => readableEnd address)
  constructor
  · apply Loop.turns_items
    apply Loop.eq_of_ok
    refine (Execution.runGame_ok_iff block (chain.gameStart host order block)).mpr ?_
    intro tx member
    obtain ⟨sender, isSender⟩ := recovered tx (List.mem_of_mem_filter member)
    refine ⟨sender, isSender, ?_⟩
    have seen := congrArg Ledger.view flushed
    change (chain.gameStart host order block).state.view host.account chain.db = _ at seen
    rw [seen]
    exact Ledger.readableAt_flush (readableEnd sender)
  · rw [← flushed]
    refine Loop.turns_map (Execution.ledger host chain.db) (fun _ => True) ?_ trivial
    intro tx _ x _
    obtain ⟨result, ledger, _⟩ := Execution.processGameTx_refines host chain.db block tx x
    exact ⟨Prod.ext result.symm ledger.symm, trivial⟩

end Recovered

/-- With contiguous nonces of every sender, all transactions of a block pass their nonce checks
exactly when their kinds are in order.
-/
theorem allNoncesPass_iff (counts : host.revm.CountsCallers (block.signers host.crypto))
    (recovered : ∀ tx ∈ block.body.transactions, ∃ sender, tx.sender host.crypto = .ok sender)
    (readable : (chain.accounts host).Readable)
    (contiguous
      : ContiguousNonces host.crypto (chain.accounts host) block.body.transactions)
    (succeeds : chain.EvmSucceeds host block)
    : chain.AllNoncesPass host order block
      ↔ Ledger.KindsInOrder host chain.evm.chainId block (chain.accounts host) := by
  obtain ⟨evmVisits, sameId, evmLedgers⟩ := evmTurns_ledgers recovered readable
  obtain ⟨gameVisits, gameLedgers⟩ :=
    @gameTurns_ledgers F host order block chain recovered readable
  have evmDue
      : (∀ turn ∈ chain.evmTurns host block, chain.PassesNonceCheck host turn)
        ↔ ∀ turn ∈ Loop.turns (Ledger.evmTx host chain.evm.chainId) block.evmTxs
            (.start host block.evmTxs (chain.accounts host)),
            Ledger.DueTurn host turn := by
    rw [← evmLedgers, List.forall_mem_map]
    rfl
  have gameDue
      : (∀ turn ∈ chain.gameTurns host order block, turn.item.isGameAction = true →
          chain.PassesNonceCheck host turn)
        ↔ ∀ turn ∈ Loop.turns (Ledger.countTx host) block.gameTxs
            (Ledger.runEvm host chain.evm.chainId block (chain.accounts host)).flush,
            Ledger.DueTurn host turn := by
    rw [Ledger.turns_countTx, ← gameLedgers]
    simp only [List.mem_filter, List.mem_map, and_imp, forall_exists_index]
    constructor
    · rintro all _ turn member rfl isGame
      exact all turn member isGame
    · intro all turn member isGame
      exact all _ turn member rfl isGame
  have accepted
      : ∀ turn ∈ Loop.turns (Ledger.evmTx host chain.evm.chainId) block.evmTxs
          (.start host block.evmTxs (chain.accounts host)),
          Ledger.DueTurn host turn → Ledger.AcceptedTurn host chain.evm.chainId turn := by
    rw [← evmLedgers, List.forall_mem_map]
    rintro turn member ⟨sender, due⟩
    refine ⟨sender, due, ?_⟩
    have isEvm : turn.item.isGameAction = false := by
      apply block.isGameAction_of_mem_evmTxs
      rw [← evmVisits]
      exact List.mem_map_of_mem member
    obtain ⟨outcome, executed, _⟩ := succeeds turn member ⟨sender, due⟩
    -- an outcome means that the interpreter has not rejected the transaction
    obtain ⟨result, run, -⟩ :=
      Execution.exists_result_of_executeTx host isEvm due.recovered executed
    rw [sameId turn member] at run
    change Ledger.Rejects host chain.evm.chainId sender turn.item turn.before.evm.db = false
    simp only [Ledger.Rejects, run]
  rw [← Ledger.dueTurns_iff_kindsInOrder counts readable recovered contiguous accepted, ← evmDue,
    ← gameDue]
  refine ⟨fun all => ⟨all.evm, all.game⟩, ?_⟩
  rintro ⟨evm, game⟩
  exact ⟨evmVisits, evm, gameVisits, game⟩

-----------------------------------------------------------------------------------------
-- Mixed traffic of one wallet
-----------------------------------------------------------------------------------------

section MixedTraffic

instance {host : Host F} {chain : Chain F} {turn : Loop.Turn SignedTransaction Execution}
    : Decidable (chain.PassesNonceCheck host turn) :=
  decidable_of_iff
    ((turn.item.sender host.crypto).toOption.any
      (fun sender => chain.dueTurn host sender turn) = true)
    (by
      constructor
      · intro any
        cases recovered : turn.item.sender host.crypto with
        | error e => simp [recovered, Except.toOption] at any
        | ok sender =>
            rw [recovered] at any
            exact ⟨sender, of_decide_eq_true any⟩
      · rintro ⟨sender, due⟩
        rw [due.recovered]
        exact decide_eq_true due)

instance {host : Host F} {turn : Loop.Turn SignedTransaction Execution}
    : Decidable (Executes host turn) :=
  decidable_of_iff
    ((turn.before.evm.executeTx host.crypto host.revm turn.item).1.toOption.any
      ExecutionOutcome.success = true)
    (by
      unfold Executes
      cases (turn.before.evm.executeTx host.crypto host.revm turn.item).1 <;>
        simp [Except.toOption])

instance {host : Host F} {block : Block} {chain : Chain F}
    : Decidable (chain.EvmSucceeds host block) :=
  inferInstanceAs (Decidable (∀ turn ∈ _, _ → _))

/-- The transactions of the sender count on from its account. -/
def countsOn (crypto : Crypto) (view : AccountView StateError) (txs : List SignedTransaction)
    (sender : Address) : Bool :=
  (sentBy crypto sender txs).map (fun tx => tx.transaction.nonce)
    == List.range' (view.nonceAt sender) (sentBy crypto sender txs).length

/-- Only the senders of the transactions have any to count. -/
instance {crypto : Crypto} {view : AccountView StateError} {txs : List SignedTransaction}
    : Decidable (ContiguousNonces crypto view txs) :=
  decidable_of_iff
    (∀ tx ∈ txs, (tx.sender crypto).toOption.all (countsOn crypto view txs) = true)
    (by
      constructor
      · intro all sender
        cases sent : sentBy crypto sender txs with
        | nil => exact countsFrom_nil _
        | cons tx rest =>
            have member : tx ∈ sentBy crypto sender txs := sent ▸ List.mem_cons_self
            obtain ⟨listed, isSender⟩ := List.mem_filter.mp member
            have counts := all tx listed
            rw [of_decide_eq_true isSender] at counts
            rw [← sent]
            exact eq_of_beq counts
      · intro contiguous tx _
        cases tx.sender crypto with
        | error e => rfl
        | ok sender => exact beq_of_eq (contiguous sender))

/-- A game action and a transfer of key 9, with nonces 0 and 1. -/
def actionFirst : Block :=
  Block.following (.genesis 0) [.action 9 1 0 (.move 1000 0 0), .transfer 9 1 1 4 5]

/-- The same wallet sends the transfer first. -/
def transferFirst : Block :=
  Block.following (.genesis 0) [.transfer 9 1 0 4 5, .action 9 1 1 (.move 1000 0 0)]

theorem recovered_of_key9 {txs : List SignedTransaction}
    (all : ∀ tx ∈ txs, tx.sender (Host.reference []).crypto = .ok 9)
    : ∀ tx ∈ txs, ∃ sender, tx.sender (Host.reference []).crypto = .ok sender :=
  fun tx member => ⟨9, all tx member⟩

/-- The chain on which account 9 can pay for both. -/
def walletChain : Chain Milli := .reference (.reference []) .reference 9 100000

theorem readable_walletChain : (walletChain.accounts (.reference [])).Readable :=
  AccountsReadable.accounts (Account.wordCodec_readable _)

theorem allNoncesPass_iff_transferFirst
    : walletChain.AllNoncesPass (.reference []) (.ascending Milli) transferFirst
      ↔ Ledger.KindsInOrder (.reference []) walletChain.evm.chainId transferFirst
          (walletChain.accounts (.reference [])) :=
  allNoncesPass_iff (Revm.transfers_countsCallers _)
    (recovered_of_key9 (by decide +kernel)) readable_walletChain (by decide +kernel)
    (by decide +kernel)

/-- The transfer with nonce 1 has its turn before the game action with nonce 0. -/
theorem allNoncesPass_fails_on_actionFirst
    : ¬ ∀ (host : Host Milli) (order : BlockOrder Milli) (block : Block) (chain : Chain Milli),
        host.revm.CountsCallers (block.signers host.crypto)
        → (∀ tx ∈ block.body.transactions, ∃ sender, tx.sender host.crypto = .ok sender)
        → (chain.accounts host).Readable
        → ContiguousNonces host.crypto (chain.accounts host) block.body.transactions
        → chain.EvmSucceeds host block
        → chain.AllNoncesPass host order block := by
  intro claimed
  have all := claimed (.reference []) (.ascending Milli) actionFirst walletChain
    (Revm.transfers_countsCallers _) (recovered_of_key9 (by decide +kernel))
    readable_walletChain (by decide +kernel) (by decide +kernel)
  exact absurd all.evm (by decide +kernel)

end MixedTraffic

end Chain

end VeloChain
