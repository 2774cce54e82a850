import VeloChain.Evm.NonceLaws
import VeloChain.Node.Growth
import VeloChain.Node.Passes
import VeloChain.Node.Reference

/-! How often a block counts a sender.
The world state counts every transaction that is due at its turn. The EVM database counts only
those the interpreter accepts, and its nonces replace those of the world state in the flush. So
the count is right where the interpreter rejects nothing that was due, and where it enters no
account that was not loaded and had a nonce.
-/

namespace VeloChain

open AccountView

/-- An accepted transaction raises the nonce of its caller by one, a rejected one raises none,
and no other signer is touched.
-/
structure Revm.CountsCallers (revm : Revm) (signers : Set Address) : Prop where
  accepted
    : ∀ chainId env db result, (revm.transactCommit chainId env db).1 = .ok result →
        env.caller ∈ signers → ∀ signer ∈ signers,
          ((revm.transactCommit chainId env db).2.infoOf signer).nonce
            = (db.infoOf signer).nonce + (if signer = env.caller then 1 else 0)
  rejected
    : ∀ chainId env db e, (revm.transactCommit chainId env db).1 = .error e →
        ∀ signer ∈ signers,
          ((revm.transactCommit chainId env db).2.infoOf signer).nonce
            = (db.infoOf signer).nonce

theorem Revm.transfers_countsCallers (signers : Set Address) : CountsCallers transfers signers := by
  constructor
  · intro chainId env db result accepted _ signer _
    rcases transfers_cases env db chainId with ⟨e, call⟩ | ⟨_, result', call⟩
    · simp [call] at accepted
    · simp only [call, nonce_infoOf_credit, nonce_infoOf_debit]
      split <;> rfl
  · intro chainId env db e rejected signer _
    rcases transfers_cases env db chainId with ⟨e', call⟩ | ⟨_, result', call⟩
    · rw [call]
    · simp [call] at rejected

/-- The addresses that sign transactions of the block. -/
def Block.signers (crypto : Crypto) (block : Block) : Set Address :=
  { sender | ∃ tx ∈ block.body.transactions, tx.sender crypto = .ok sender }

instance {crypto : Crypto} {view : AccountView StateError} {tx : SignedTransaction}
    {sender : Address} : Decidable (Due crypto view tx sender) :=
  decidable_of_iff (tx.sender crypto = .ok sender ∧ view.nonce sender = .ok tx.transaction.nonce)
    ⟨fun due => ⟨due.1, due.2⟩, fun due => ⟨due.recovered, due.nonce⟩⟩

-----------------------------------------------------------------------------------------
-- Counting in one turn
-----------------------------------------------------------------------------------------

namespace Ledger

variable {F : Type} {host : Host F} {sender : Address} {ledger after : Ledger}
  {tx : SignedTransaction}

/-- A successful guarded turn counts the sender if the transaction is due from it. -/
theorem CountsNonce.nonceAt_turn {effect : Address → SignedTransaction → Ledger → Ledger}
    (counts : CountsNonce effect) (readable : ledger.view.ReadableAt sender)
    (turn : Ledger.guarded host effect tx ledger = (.ok (), after))
    : after.view.ReadableAt sender
      ∧ after.view.nonceAt sender
        = ledger.view.nonceAt sender
          + (if Due host.crypto ledger.view tx sender then 1 else 0) := by
  obtain ⟨n, read⟩ := readableAt_iff_nonce.mp readable
  rcases guarded_ok_cases turn with ⟨stale, rfl⟩ | ⟨other, due, rfl⟩
  · have notDue : ¬ Due host.crypto after.view tx sender := fun due => due.not_stale stale
    simp only [notDue, if_false]
    exact ⟨readable, rfl⟩
  · by_cases same : other = sender
    · subst same
      have counted := counts.self other tx ledger _ due.nonce
      simp only [due, if_true, nonceAt_eq due.nonce, nonceAt_eq counted, and_true]
      exact readableAt_iff_nonce.mpr ⟨_, counted⟩
    · have notDue : ¬ Due host.crypto ledger.view tx sender :=
        fun own => same (Except.ok.inj (due.recovered.symm.trans own.recovered))
      have kept := (counts.other other tx ledger sender (Ne.symm same)).trans read
      simp only [notDue, if_false, nonceAt_eq read, nonceAt_eq kept]
      exact ⟨readableAt_iff_nonce.mpr ⟨_, kept⟩, rfl⟩

/-- A game action counts its sender if it is due from it; other transactions do not count. -/
theorem nonceAt_gameTx (readable : ledger.view.ReadableAt sender)
    (turn : ledger.gameTx host tx = (.ok (), after))
    : after.view.ReadableAt sender
      ∧ after.view.nonceAt sender
        = ledger.view.nonceAt sender
          + (if tx.isGameAction ∧ Due host.crypto ledger.view tx sender then 1 else 0) := by
  unfold gameTx at turn
  by_cases isGame : tx.isGameAction = true
  · rw [if_pos isGame] at turn
    simpa only [isGame, true_and] using countAction_countsNonce.nonceAt_turn readable turn
  · rw [if_neg isGame] at turn
    obtain rfl := (Prod.mk.inj turn).2
    simp only [isGame, Bool.false_eq_true, false_and, if_false]
    exact ⟨readable, rfl⟩

/-- The interpreter rejects the transaction, run for `sender`. -/
def Rejects (host : Host F) (chainId : UInt64) (sender : Address) (tx : SignedTransaction)
    (db : CacheDb) : Bool :=
  match (host.revm.transactCommit chainId (EvmExecutor.txEnv sender tx.transaction) db).1 with
  | .error _ => true
  | .ok _ => false

/-- In the EVM database a due transaction counts unless it is rejected. -/
theorem nonce_infoOf_turn {signers : Set Address} (counts : host.revm.CountsCallers signers)
    (signs : sender ∈ signers)
    (signed : ∀ other, tx.sender host.crypto = .ok other → other ∈ signers)
    {chainId : UInt64} (turn : ledger.evmTx host chainId tx = (.ok (), after))
    : (after.db.infoOf sender).nonce
          + (if Due host.crypto ledger.view tx sender
                ∧ Rejects host chainId sender tx ledger.db then 1 else 0)
        = (ledger.db.infoOf sender).nonce
          + (if Due host.crypto ledger.view tx sender then 1 else 0) := by
  rcases guarded_ok_cases turn with ⟨stale, rfl⟩ | ⟨other, due, rfl⟩
  · have notDue : ¬ Due host.crypto after.view tx sender := fun due => due.not_stale stale
    simp only [notDue, false_and, if_false]
  · have isSigner := signed other due.recovered
    have self : sender = other ↔ Due host.crypto ledger.view tx sender := by
      constructor
      · intro same
        exact same ▸ due
      · intro own
        exact Except.ok.inj (own.recovered.symm.trans due.recovered)
    unfold Rejects
    cases run : (host.revm.transactCommit chainId (EvmExecutor.txEnv other tx.transaction)
        ledger.db).1 with
    | error e =>
        have kept := counts.rejected chainId _ ledger.db e run sender signs
        by_cases same : sender = other
        · subst same
          simp only [transact, kept, run, and_true]
        · simp only [transact, kept, ← self, same, false_and, if_false]
    | ok result =>
        have counted := counts.accepted chainId _ ledger.db result run isSigner sender signs
        rw [show (EvmExecutor.txEnv other tx.transaction).caller = other from rfl] at counted
        by_cases same : sender = other
        · subst same
          simp only [transact, counted, run, Bool.false_eq_true, and_false, if_false, due, if_true,
            Nat.add_zero]
        · simp only [transact, counted, ← self, same, if_false, false_and]

/-- What can be read can be read after the flush. -/
theorem readableAt_flush (readable : ledger.view.ReadableAt sender)
    : ledger.flush.view.ReadableAt sender := by
  unfold flush AccountView.flush
  obtain ⟨account, read⟩ := readableAt_iff.mp readable
  cases found : ledger.db.accounts.lookup sender with
  | none =>
      obtain ⟨known, read⟩ := readable
      exact ⟨known, by simp only [found, read]⟩
  | some entry => exact ⟨_, by simp only [found, read]; rfl⟩

section Start

variable {evmTxs : List SignedTransaction} {view : AccountView StateError}

/-- The EVM database starts with the nonces of the accounts the transactions name. -/
theorem nonce_infoOf_start (readable : view.ReadableAt sender)
    (named : ∃ tx ∈ evmTxs, Names host tx sender)
    : ((start host evmTxs view).db.infoOf sender).nonce = view.nonceAt sender := by
  obtain ⟨account, read⟩ := readableAt_iff.mp readable
  rw [infoOf_start host named read, nonceAt_eq (nonce_eq read)]
  rfl

/-- It knows nothing of the other accounts. -/
theorem nonce_infoOf_start_unnamed (unnamed : ¬ ∃ tx ∈ evmTxs, Names host tx sender)
    : ((start host evmTxs view).db.infoOf sender).nonce = 0 := by
  rw [CacheDb.infoOf_of_notMem (notMem_start_of_unnamed host unnamed)]

end Start

/-- The flush puts the nonce of the EVM database over that of the world state. -/
theorem nonceAt_flush (readable : ledger.view.ReadableAt sender)
    : ledger.flush.view.nonceAt sender
      = if sender ∈ ledger.db.accounts then (ledger.db.infoOf sender).nonce
        else ledger.view.nonceAt sender := by
  split
  next member =>
    obtain ⟨entry, found⟩ := Finmap.mem_iff.mp member
    rw [CacheDb.infoOf_of_some found]
    exact nonceAt_eq (nonce_flush found readable)
  next missing =>
    have none := Finmap.lookup_eq_none.mpr missing
    exact nonceAt_congr (congrArg (Except.map _) (flush_of_none none ledger.view))

end Ledger

-----------------------------------------------------------------------------------------
-- Counting over the passes of a block
-----------------------------------------------------------------------------------------

namespace Chain

variable {F : Type} [F32 F] (host : Host F) (order : BlockOrder F) (block : Block)
  (chain : Chain F) (sender : Address)

/-- The transaction of the turn is from the sender and has the nonce the world state has for it. -/
def dueTurn (turn : Loop.Turn SignedTransaction Execution) : Bool :=
  decide (Due host.crypto (turn.before.ledger host chain.db).view turn.item sender)

/-- The interpreter rejects the transaction of the turn, which is due from the sender. -/
def rejectedTurn (turn : Loop.Turn SignedTransaction Execution) : Bool :=
  chain.dueTurn host sender turn
  && Ledger.Rejects host chain.evm.chainId sender turn.item turn.before.evm.db

/-- The number of transactions of the sender whose nonce matches at their turn. -/
def matchedTurns : Nat :=
  (chain.evmTurns host block).countP (chain.dueTurn host sender)
  + (chain.gameTurns host order block).countP
      (fun turn => turn.item.isGameAction && chain.dueTurn host sender turn)

/-- The EVM database, where it has an entry for the sender, has counted as the world state has:
the sender was loaded or had no nonce, and no due transaction of it was rejected.
-/
def CopiesAgree : Prop :=
  sender ∈ (chain.evmEnd host block).evm.db.accounts
  → ((∃ tx ∈ block.evmTxs, Ledger.Names host tx sender)
      ∨ (chain.accounts host).nonceAt sender = 0)
    ∧ ∀ turn ∈ chain.evmTurns host block, chain.rejectedTurn host sender turn = false

variable {host order block chain sender}

section Accepted

variable (accepted : Accepted host order block chain)

include accepted

/-- In the EVM pass the world state counts the due transactions of the sender. -/
theorem Accepted.nonceAt_evmEnd
    (readable : (chain.accounts host).ReadableAt sender)
    : ((chain.evmEnd host block).ledger host chain.db).view.ReadableAt sender
      ∧ ((chain.evmEnd host block).ledger host chain.db).view.nonceAt sender
        = (chain.accounts host).nonceAt sender
          + (chain.evmTurns host block).countP (chain.dueTurn host sender) := by
  have started := congrArg Ledger.view accepted.evmStart_ledger.1
  rw [Ledger.start_view] at started
  have ran := accepted.evmEnd_eq.1
  rw [← accepted.evmEnd_eq.2, ← accepted.evmTxs] at ran
  have counted := Loop.measure_turns
    (fun (x : Execution) => (x.ledger host chain.db).view.ReadableAt sender)
    (fun x => (x.ledger host chain.db).view.nonceAt sender)
    (chain.dueTurn host sender) (fun _ => false) (by
      intro turn member held
      obtain ⟨_, call⟩ := accepted.evmTurn member
      obtain ⟨kept, total⟩ :=
        (Ledger.transact_countsNonce host chain.evm.chainId).nonceAt_turn held call
      refine ⟨kept, ?_⟩
      simpa only [dueTurn, decide_eq_true_eq, Bool.false_eq_true, if_false, Nat.add_zero]
        using total)
    (by rwa [started]) ran
  rw [List.countP_false, Function.const_apply, Nat.add_zero, started] at counted
  exact counted

/-- In the EVM pass the EVM database counts those that are not rejected. -/
theorem Accepted.nonce_infoOf_evmEnd {signers : Set Address}
    (counts : host.revm.CountsCallers signers) (signed : block.signers host.crypto ⊆ signers)
    (signs : sender ∈ signers)
    : ((chain.evmEnd host block).evm.db.infoOf sender).nonce
        + (chain.evmTurns host block).countP (chain.rejectedTurn host sender)
      = ((Ledger.start host block.evmTxs (chain.accounts host)).db.infoOf sender).nonce
        + (chain.evmTurns host block).countP (chain.dueTurn host sender) := by
  have started := congrArg Ledger.db accepted.evmStart_ledger.1
  have ran := accepted.evmEnd_eq.1
  rw [← accepted.evmEnd_eq.2, ← accepted.evmTxs] at ran
  have counted := Loop.measure_turns (fun _ : Execution => True)
    (fun x => (x.evm.db.infoOf sender).nonce)
    (chain.dueTurn host sender) (chain.rejectedTurn host sender) (by
      intro turn member _
      obtain ⟨listed, call⟩ := accepted.evmTurn member
      have fromSigner (other : Address) (recovered : turn.item.sender host.crypto = .ok other)
          : other ∈ signers :=
        signed ⟨turn.item, List.mem_of_mem_filter listed, recovered⟩
      have total := Ledger.nonce_infoOf_turn counts signs fromSigner call
      refine ⟨trivial, ?_⟩
      simp only [dueTurn, rejectedTurn, Bool.and_eq_true, decide_eq_true_eq]
      exact total)
    trivial ran
  rw [← started]
  exact counted.2

/-- In the game pass the world state counts the due game actions of the sender. -/
theorem Accepted.nonceAt_processed
    (readable
      : ((chain.gameStart host order block).ledger host chain.db).view.ReadableAt sender)
    : (accepted.processed.ledger host chain.db).view.nonceAt sender
      = ((chain.gameStart host order block).ledger host chain.db).view.nonceAt sender
        + (chain.gameTurns host order block).countP
            (fun turn => turn.item.isGameAction && chain.dueTurn host sender turn) := by
  have counted := Loop.measure_turns
    (fun (x : Execution) => (x.ledger host chain.db).view.ReadableAt sender)
    (fun x => (x.ledger host chain.db).view.nonceAt sender)
    (fun turn => turn.item.isGameAction && chain.dueTurn host sender turn) (fun _ => false) (by
      intro turn member held
      obtain ⟨_, call⟩ := accepted.gameTurn member
      obtain ⟨kept, total⟩ := Ledger.nonceAt_gameTx held call
      refine ⟨kept, ?_⟩
      simpa only [dueTurn, Bool.and_eq_true, decide_eq_true_eq, Bool.false_eq_true, if_false,
        Nat.add_zero] using total)
    readable accepted.game_ok
  rw [List.countP_false, Function.const_apply, Nat.add_zero] at counted
  exact counted.2

end Accepted

omit [F32 F] in
/-- A sender that no EVM transaction names has no turn in the EVM pass. -/
theorem evmCount_unnamed
    (items : ∀ turn ∈ chain.evmTurns host block, turn.item ∈ block.evmTxs)
    (unnamed : ¬ ∃ tx ∈ block.evmTxs, Ledger.Names host tx sender)
    : (chain.evmTurns host block).countP (chain.dueTurn host sender) = 0 := by
  rw [List.countP_eq_zero]
  intro turn member due
  exact unnamed ⟨turn.item, items turn member, Or.inl (of_decide_eq_true due).recovered⟩

/-- A block counts all due transactions of a signer but for what the flush takes back, and takes
nothing back exactly when the two copies of the nonce agree at the flush.
-/
theorem Accepted.exists_takenBack (accepted : Accepted host order block chain)
    (sound : host.account.RoundTrips) {signers : Set Address}
    (counts : host.revm.CountsCallers signers) (signed : block.signers host.crypto ⊆ signers)
    (signs : sender ∈ signers) (readable : chain.AccountsReadable host)
    : ∃ takenBack,
        (accepted.result.accounts host).nonceAt sender + takenBack
          = (chain.accounts host).nonceAt sender + chain.matchedTurns host order block sender
        ∧ (takenBack = 0 ↔ chain.CopiesAgree host block sender) := by
  have result : (accepted.result.accounts host)
      = (accepted.processed.ledger host chain.db).view := accounts_finalize order block _ _ _ sound
  obtain ⟨readableEnd, worldCount⟩ :=
    @Accepted.nonceAt_evmEnd F _ host order block chain sender accepted (readable.accounts sender)
  have evmCount := accepted.nonce_infoOf_evmEnd counts signed signs
  have begins := accepted.gameStart_ledger readable.accounts
  have gameCount := @Accepted.nonceAt_processed F _ host order block chain sender accepted (by
    rw [begins]
    exact Ledger.readableAt_flush readableEnd)
  have flushed := @Ledger.nonceAt_flush sender ((chain.evmEnd host block).ledger host chain.db)
    readableEnd
  rw [result, gameCount, begins, flushed, matchedTurns]
  have none : (chain.evmTurns host block).countP (chain.rejectedTurn host sender) = 0
      ↔ ∀ turn ∈ chain.evmTurns host block, chain.rejectedTurn host sender turn = false := by
    simp only [List.countP_eq_zero, Bool.not_eq_true]
  -- only an entry of the sender replaces the count of the world state in the flush
  by_cases entered : sender ∈ (chain.evmEnd host block).evm.db.accounts
  · have inLedger : sender ∈ ((chain.evmEnd host block).ledger host chain.db).db.accounts :=
      entered
    have flushedNonce
        : (((chain.evmEnd host block).ledger host chain.db).db.infoOf sender).nonce
          = ((chain.evmEnd host block).evm.db.infoOf sender).nonce :=
      rfl
    rw [if_pos inLedger, flushedNonce, CopiesAgree, ← none]
    simp only [entered, true_imp_iff]
    by_cases named : ∃ tx ∈ block.evmTxs, Ledger.Names host tx sender
    · rw [Ledger.nonce_infoOf_start (readable.accounts sender) named] at evmCount
      simp only [named, true_or, true_and]
      exact ⟨(chain.evmTurns host block).countP (chain.rejectedTurn host sender), by omega,
        Iff.rfl⟩
    · have noTurn := evmCount_unnamed (fun turn member => (accepted.evmTurn member).1) named
      rw [Ledger.nonce_infoOf_start_unnamed named, noTurn] at evmCount
      simp only [named, false_or]
      exact ⟨(chain.accounts host).nonceAt sender, by omega, by omega⟩
  · have notInLedger : sender ∉ ((chain.evmEnd host block).ledger host chain.db).db.accounts :=
      entered
    rw [if_neg notInLedger, worldCount]
    exact ⟨0, by omega, iff_of_true rfl (fun member => absurd member entered)⟩

/-- A sender's nonce grows by the number of its transactions that are due at their turn,
exactly when the two copies of the nonce agree at the flush.
-/
theorem nonceAccounting_iff (sound : host.account.RoundTrips)
    (counts : host.revm.CountsCallers (block.signers host.crypto))
    (readable : chain.AccountsReadable host) {next : Chain F}
    (applied : chain.applyBlock host order block = (.ok (), next))
    (signs : sender ∈ block.signers host.crypto)
    : (next.accounts host).nonceAt sender
        = (chain.accounts host).nonceAt sender + chain.matchedTurns host order block sender
      ↔ chain.CopiesAgree host block sender := by
  obtain ⟨accepted, rfl⟩ := applyBlock_ok_iff.mp applied
  obtain ⟨takenBack, total, agree⟩ :=
    accepted.exists_takenBack sound counts (Set.Subset.refl _) signs readable
  rw [← agree, ← total]
  exact Nat.left_eq_add

-----------------------------------------------------------------------------------------
-- Nonces fit in 64 bits
-----------------------------------------------------------------------------------------

section Fit

/-- No more transactions match than the block has. -/
theorem Accepted.matchedTurns_le (accepted : Accepted host order block chain)
    : chain.matchedTurns host order block sender ≤ block.body.transactions.length := by
  have evmItems : (chain.evmTurns host block).map Loop.Turn.item = block.evmTxs := by
    have ran := accepted.evmEnd_eq.1
    rw [← accepted.evmTxs] at ran ⊢
    exact Loop.turns_items ran
  have gameItems
      : (chain.gameTurns host order block).map Loop.Turn.item = block.body.transactions :=
    Loop.turns_items accepted.game_ok
  have evmDue : (chain.evmTurns host block).countP (chain.dueTurn host sender)
      ≤ block.evmTxs.length := by
    rw [← evmItems, List.length_map]
    exact List.countP_le_length
  have gameDue
      : (chain.gameTurns host order block).countP
            (fun turn => turn.item.isGameAction && chain.dueTurn host sender turn)
        ≤ block.gameTxs.length := by
    rw [Block.gameTxs, ← gameItems, ← List.countP_eq_length_filter, List.countP_map]
    refine List.countP_mono_left fun turn _ both => ?_
    exact (Bool.and_eq_true_iff.mp both).1
  have parts : block.evmTxs.length + block.gameTxs.length = block.body.transactions.length := by
    rw [← List.length_append]
    exact (List.perm_append_comm.trans (List.filter_append_perm _ _)).length_eq
  rw [matchedTurns]
  omega

/-- The nonces of the signers have room for one more in 64 bits. -/
def NoncesFit (host : Host F) (signers : Set Address) (chain : Chain F) : Prop :=
  ∀ signer ∈ signers, (chain.accounts host).nonceAt signer < 2 ^ 64 - 1

/-- The transactions of applied blocks bound the nonces, by induction on the blocks. -/
theorem nonceAt_run_le (sound : host.account.RoundTrips) {signers : Set Address}
    (counts : host.revm.CountsCallers signers) (signs : sender ∈ signers)
    {blocks : List (Block × BlockOrder F)}
    (signed : ∀ entry ∈ blocks, entry.1.signers host.crypto ⊆ signers) {chain final : Chain F}
    (readable : chain.AccountsReadable host)
    (imported : Loop.run (importBlock host) blocks chain = (.ok (), final))
    : (final.accounts host).nonceAt sender
      ≤ (chain.accounts host).nonceAt sender
        + (blocks.flatMap (fun entry => entry.1.body.transactions)).length := by
  induction blocks generalizing chain with
  | nil =>
      obtain rfl := (Prod.mk.inj imported).2
      exact Nat.le_add_right _ _
  | cons entry rest ih =>
      obtain ⟨next, applied, imported⟩ := Loop.run_cons_ok_iff.mp imported
      obtain ⟨here, later⟩ := List.forall_mem_cons.mp signed
      obtain ⟨accepted, rfl⟩ := applyBlock_ok_iff.mp applied
      have readableNext : accepted.result.AccountsReadable host :=
        readable.finalize entry.2 entry.1 accepted.processed accepted.world sound
      have most : (final.accounts host).nonceAt sender ≤ _ := ih later readableNext imported
      obtain ⟨takenBack, total, -⟩ := accepted.exists_takenBack sound counts here signs readable
      have matched := @Accepted.matchedTurns_le F _ host entry.2 entry.1 chain sender accepted
      rw [List.flatMap_cons, List.length_append]
      omega

/-- Where the nonces and the transactions to come add up to less than the largest 64-bit number,
no nonce reaches it. So a counter of 64 bits counts as the natural numbers do.
-/
theorem noncesFit_run (sound : host.account.RoundTrips) {signers : Set Address}
    (counts : host.revm.CountsCallers signers) {blocks : List (Block × BlockOrder F)}
    (signed : ∀ entry ∈ blocks, entry.1.signers host.crypto ⊆ signers) {chain final : Chain F}
    (readable : chain.AccountsReadable host)
    (fits
      : ∀ signer ∈ signers,
          (chain.accounts host).nonceAt signer
              + (blocks.flatMap (fun entry => entry.1.body.transactions)).length
            < 2 ^ 64 - 1)
    (imported : Loop.run (importBlock host) blocks chain = (.ok (), final))
    : final.NoncesFit host signers :=
  fun signer signs =>
    (nonceAt_run_le sound counts signs signed readable imported).trans_lt (fits signer signs)

end Fit

-----------------------------------------------------------------------------------------
-- A count that the flush takes back
-----------------------------------------------------------------------------------------

section LostCount

/-- A transfer of more than the account of key 9 has. -/
def unpaidTransfer : Block := Block.following (.genesis 0) [.transfer 9 1 0 4 5]

/-- The chain on which account 9 has nothing. -/
def pennilessChain : Chain Milli := .reference (.reference []) .reference 9 0

theorem signs_unpaidTransfer : 9 ∈ unpaidTransfer.signers (Host.reference []).crypto :=
  ⟨.transfer 9 1 0 4 5, List.mem_singleton_self _, by decide +kernel⟩

theorem applied_unpaidTransfer
    : pennilessChain.applyBlock (.reference []) (.ascending Milli) unpaidTransfer
      = (.ok (),
          (pennilessChain.applyBlock (.reference []) (.ascending Milli) unpaidTransfer).2) :=
  Loop.eq_of_ok (by decide +kernel)

theorem nonceAccounting_iff_unpaidTransfer
    : ((pennilessChain.applyBlock (.reference []) (.ascending Milli) unpaidTransfer).2.accounts
            (.reference [])).nonceAt 9
          = (pennilessChain.accounts (.reference [])).nonceAt 9
            + pennilessChain.matchedTurns (.reference []) (.ascending Milli) unpaidTransfer 9
        ↔ pennilessChain.CopiesAgree (.reference []) unpaidTransfer 9 :=
  @nonceAccounting_iff Milli _ (.reference []) (.ascending Milli) unpaidTransfer pennilessChain 9
    Account.wordCodec_roundTrips (Revm.transfers_countsCallers _) (Account.wordCodec_readable _)
    _ applied_unpaidTransfer signs_unpaidTransfer

/-- The rejected transfer is counted in the world state, and the flush takes the count back. -/
theorem nonceAccounting_fails_on_unpaidTransfer
    : ¬ ∀ (host : Host Milli) (order : BlockOrder Milli) (block : Block)
          (chain next : Chain Milli) (sender : Address),
        host.account.RoundTrips
        → host.revm.CountsCallers (block.signers host.crypto)
        → chain.AccountsReadable host
        → chain.applyBlock host order block = (.ok (), next)
        → sender ∈ block.signers host.crypto
        → (next.accounts host).nonceAt sender
            = (chain.accounts host).nonceAt sender
              + chain.matchedTurns host order block sender := by
  intro claimed
  have counted := claimed (.reference []) (.ascending Milli) unpaidTransfer pennilessChain _ 9
    Account.wordCodec_roundTrips (Revm.transfers_countsCallers _)
    (Account.wordCodec_readable _) applied_unpaidTransfer signs_unpaidTransfer
  exact absurd counted (by decide +kernel)

end LostCount

end Chain

end VeloChain
