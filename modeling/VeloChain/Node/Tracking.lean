import VeloChain.Evm.Funds
import VeloChain.Node.NonceAccounting
import VeloChain.Node.Settlement

/-! The EVM database of a block beside a single database that holds all accounts.
The node loads the accounts a block names, runs the block and flushes. The single database
runs the same transactions without a break. While transactions only move funds between loaded
accounts, the EVM database has the funds of the single one.
-/

namespace VeloChain

open AccountView

-----------------------------------------------------------------------------------------
-- Databases that hold the accounts of a view
-----------------------------------------------------------------------------------------

namespace CacheDb

/-- The database has the funds of every account of the view. -/
def HasFunds (view : AccountView StateError) (db : CacheDb) : Prop :=
  ∀ address, ∃ account,
    view.accountOrDefault address = .ok account ∧ db.fundsOf address = account.funds

/-- The database holds every account of the view: its funds, and contents that its code hash
and storage root stand for.
-/
def Mirrors (stands : B256 → B256 → Contents → Prop) (view : AccountView StateError)
    (db : CacheDb) : Prop :=
  ∀ address, ∃ account,
    view.accountOrDefault address = .ok account
    ∧ db.fundsOf address = account.funds
    ∧ stands account.codeHash account.storageRoot (db.contentsOf address)

theorem HasFunds.readable {view : AccountView StateError} {db : CacheDb}
    (has : db.HasFunds view)
    : view.Readable := by
  intro address
  obtain ⟨account, read, _⟩ := has address
  exact readableAt_iff.mpr ⟨account, read⟩

theorem Mirrors.hasFunds {stands : B256 → B256 → Contents → Prop}
    {view : AccountView StateError} {db : CacheDb} (mirrors : db.Mirrors stands view)
    : db.HasFunds view := by
  intro address
  obtain ⟨account, read, funds, _⟩ := mirrors address
  exact ⟨account, read, funds⟩

/-- Where code and storage are the same on both sides as before, equal funds are enough. -/
theorem Mirrors.of_hasFunds {stands : B256 → B256 → Contents → Prop}
    {before after : AccountView StateError} {db next : CacheDb}
    (mirrors : db.Mirrors stands before) (has : next.HasFunds after)
    (sameCode : SameCode before after) (sameContents : next.contentsOf = db.contentsOf)
    : next.Mirrors stands after := by
  intro address
  obtain ⟨account, read, _, known⟩ := mirrors address
  obtain ⟨account', read', funds⟩ := has address
  have same := sameCode address
  simp only [read, read', Except.map, Except.ok.injEq, Prod.mk.injEq] at same
  refine ⟨account', read', funds, ?_⟩
  rw [same.1, same.2, sameContents]
  exact known

end CacheDb

/-- Accounts with the same code and funds are the same. -/
theorem AccountView.SameCode.accountOrDefault_eq {before after : AccountView StateError}
    (sameCode : SameCode before after) {db next : CacheDb} (has : db.HasFunds before)
    (has' : next.HasFunds after) {address : Address}
    (same : next.fundsOf address = db.fundsOf address)
    : after.accountOrDefault address = before.accountOrDefault address := by
  obtain ⟨account, read, funds⟩ := has address
  obtain ⟨account', read', funds'⟩ := has' address
  have code := sameCode address
  simp only [read, read', Except.map, Except.ok.injEq, Prod.mk.injEq] at code
  have moved : account'.funds = account.funds := funds'.symm.trans (same.trans funds)
  simp only [Account.funds, Funds.mk.injEq] at moved
  rw [read, read', Except.ok.injEq]
  cases account
  cases account'
  simp_all

-----------------------------------------------------------------------------------------
-- One executor over a list of transactions
-----------------------------------------------------------------------------------------

namespace EvmExecutor

variable {F : Type} (host : Host F)

/-- Execute a transaction and go on, whatever its result. -/
def executeNext (tx : SignedTransaction) (evm : EvmExecutor)
    : Except EvmError Unit × EvmExecutor :=
  (.ok (), (evm.executeTx host.crypto host.revm tx).2)

/-- Execute transactions one after the other on one database. -/
def executeAll (txs : List SignedTransaction) (evm : EvmExecutor) : EvmExecutor :=
  (Loop.run (executeNext host) txs evm).2

/-- The interpreter rejects the transaction although it has the nonce of its sender. -/
def rejectsDue (tx : SignedTransaction) (evm : EvmExecutor) : Bool :=
  match tx.sender host.crypto with
  | .error _ => false
  | .ok sender =>
      tx.transaction.nonce == (evm.db.infoOf sender).nonce
      && Ledger.Rejects host evm.chainId sender tx evm.db

/-- Where a list of transactions goes on after another one. -/
theorem run_executeNext (txs : List SignedTransaction) (evm : EvmExecutor)
    : Loop.run (executeNext host) txs evm = (.ok (), evm.executeAll host txs) := by
  obtain ⟨final, ran, _⟩ := @Loop.run_ok _ _ _ (executeNext host) txs evm (fun _ => True)
    (fun _ _ _ _ => ⟨_, rfl, trivial⟩) trivial
  unfold executeAll
  rw [ran]

theorem executeAll_cons (tx : SignedTransaction) (rest : List SignedTransaction)
    (evm : EvmExecutor)
    : evm.executeAll host (tx :: rest)
      = ((evm.executeTx host.crypto host.revm tx).2).executeAll host rest :=
  congrArg Prod.snd (Loop.run_cons_ok rfl)

theorem executeAll_append (left right : List SignedTransaction) (evm : EvmExecutor)
    : evm.executeAll host (left ++ right) = (evm.executeAll host left).executeAll host right :=
  congrArg Prod.snd (Loop.run_append_ok (run_executeNext host left evm))

variable {host}

/-- A transaction is passed over, or the interpreter runs it for its sender. -/
theorem executeTx_cases (tx : SignedTransaction) (evm : EvmExecutor)
    : (evm.executeTx host.crypto host.revm tx).2 = evm
      ∨ ∃ sender,
          (evm.executeTx host.crypto host.revm tx).2
            = { evm with
                db := (host.revm.transactCommit evm.chainId (txEnv sender tx.transaction)
                  evm.db).2 } := by
  cases isGame : tx.isGameAction with
  | true =>
      apply Or.inl
      simp only [executeTx, isGame, if_true]
  | false =>
      cases recovered : tx.sender host.crypto with
      | error e =>
          apply Or.inl
          simp only [executeTx, isGame, recovered, Bool.false_eq_true, if_false]
      | ok sender =>
          exact Or.inr ⟨sender, (Execution.executeTx_ledger host isGame recovered evm).2⟩

/-- A transaction keeps the chain id, and the contents of all accounts. -/
theorem executeTx_frame {footprint : TxEnv → Set Address}
    (moves : host.revm.MovesFunds footprint) (tx : SignedTransaction) (evm : EvmExecutor)
    : (evm.executeTx host.crypto host.revm tx).2.chainId = evm.chainId
      ∧ (evm.executeTx host.crypto host.revm tx).2.db.contentsOf = evm.db.contentsOf := by
  rcases @executeTx_cases F host tx evm with same | ⟨sender, ran⟩
  · rw [same]
    exact ⟨rfl, rfl⟩
  · rw [ran]
    exact ⟨rfl, moves.contents _ _ _⟩

/-- A run on one database keeps its chain id, and the contents of all accounts. -/
theorem executeAll_frame {footprint : TxEnv → Set Address}
    (moves : host.revm.MovesFunds footprint) (txs : List SignedTransaction) (evm : EvmExecutor)
    : (evm.executeAll host txs).chainId = evm.chainId
      ∧ (evm.executeAll host txs).db.contentsOf = evm.db.contentsOf := by
  refine Loop.run_invariant
    (fun (after : EvmExecutor) =>
      after.chainId = evm.chainId ∧ after.db.contentsOf = evm.db.contentsOf)
    ?_ ⟨rfl, rfl⟩
  rintro tx _ after ⟨chainId, contents⟩
  obtain ⟨sameId, sameContents⟩ := executeTx_frame moves tx after
  exact ⟨sameId.trans chainId, sameContents.trans contents⟩

end EvmExecutor

-----------------------------------------------------------------------------------------
-- The EVM pass of a block tracks the single database
-----------------------------------------------------------------------------------------

namespace Ledger

variable {F : Type} {host : Host F}

/-- The accounts the EVM database has right: those it was asked to load, and those without
funds.
-/
def covered (host : Host F) (evmTxs : List SignedTransaction) (view : AccountView StateError)
    : Set Address :=
  { address |
    (∃ tx ∈ evmTxs, Names host tx address)
    ∨ ∃ account,
        view.accountOrDefault address = .ok account
        ∧ account.funds = { balance := 0, nonce := 0 } }

/-- What holds between a ledger in the EVM pass of a block and a single database. -/
structure Tracks (host : Host F) (evmTxs : List SignedTransaction) (signers : Set Address)
    (start : AccountView StateError) (ledger : Ledger) (single : CacheDb) : Prop where
  underway : Underway host evmTxs start ledger
  within : ∀ address ∈ ledger.db.accounts, address ∈ covered host evmTxs start
  inside
    : ∀ address ∈ covered host evmTxs start,
        single.fundsOf address = ledger.db.fundsOf address
  outside
    : ∀ address ∉ covered host evmTxs start, ∃ account,
        start.accountOrDefault address = .ok account ∧ single.fundsOf address = account.funds
  nonces
    : ∀ sender ∈ signers, ledger.view.nonce sender = .ok (single.fundsOf sender).nonce
  untouched : ∀ address ∉ ledger.db.accounts, ledger.view address = start address

variable {evmTxs : List SignedTransaction} {signers : Set Address}
  {start : AccountView StateError} {ledger after : Ledger}

/-- An account without an entry has no funds at the start, if it is covered. -/
theorem Underway.funds_of_notMem (underway : Underway host evmTxs start ledger)
    (readable : start.Readable) {address : Address}
    (inside : address ∈ covered host evmTxs start) (missing : address ∉ ledger.db.accounts)
    : ∃ account,
        start.accountOrDefault address = .ok account
        ∧ account.funds = { balance := 0, nonce := 0 } := by
  cases inside with
  | inl named =>
      obtain ⟨found, read⟩ := readable address
      cases found with
      | none => exact ⟨.default, by simp only [accountOrDefault, read, Except.map,
          Option.getD_none], rfl⟩
      | some account => exact absurd read (underway.loaded address named missing account)
  | inr empty => exact empty

/-- The loaded ledger tracks a database that has the funds of all accounts. -/
theorem tracks_start {single : CacheDb} (has : single.HasFunds start)
    : Tracks host evmTxs signers start (.start host evmTxs start) single := by
  refine ⟨underway_start evmTxs start, ?_, ?_, fun address _ => has address, ?_, ?_⟩
  · intro address member
    by_contra uncovered
    exact notMem_start_of_unnamed host (fun named => uncovered (Or.inl named)) member
  · intro address inside
    obtain ⟨account, read, funds⟩ := has address
    by_cases named : ∃ tx ∈ evmTxs, Names host tx address
    · rw [funds, CacheDb.fundsOf, infoOf_start host named read]
      rfl
    · obtain ⟨account', read', empty⟩ := inside.resolve_left named
      obtain rfl := Except.ok.inj (read.symm.trans read')
      rw [funds, empty, CacheDb.fundsOf_of_notMem (notMem_start_of_unnamed host named)]
  · intro sender _
    obtain ⟨account, read, funds⟩ := has sender
    rw [start_view, nonce_eq read, funds]
    rfl
  · intro address _
    rw [start_view]

theorem Tracks.congr {single single' : CacheDb}
    (tracks : Tracks host evmTxs signers start ledger single)
    (same : single'.fundsOf = single.fundsOf)
    : Tracks host evmTxs signers start ledger single' := by
  refine ⟨tracks.underway, tracks.within, ?_, ?_, ?_, tracks.untouched⟩
  · rw [same]
    exact tracks.inside
  · rw [same]
    exact tracks.outside
  · rw [same]
    exact tracks.nonces

section Turn

variable {footprint : TxEnv → Set Address} {evm : EvmExecutor} {tx : SignedTransaction}

/-- A rejected transaction moves no funds. -/
theorem fundsOf_of_rejected (laws : host.revm.NonceLaws) {chainId : UInt64} {env : TxEnv}
    {db : CacheDb} {e : String} (rejected : (host.revm.transactCommit chainId env db).1 = .error e)
    : (host.revm.transactCommit chainId env db).2.fundsOf = db.fundsOf := by
  funext address
  obtain ⟨balance, nonce⟩ := laws.rejected_info chainId env db e rejected address
  simp only [CacheDb.fundsOf, balance, nonce]

/-- A stale transaction moves no funds in the single database either. -/
theorem Tracks.stale (tracks : Tracks host evmTxs signers start ledger evm.db)
    (laws : host.revm.NonceLaws) (isEvm : tx.isGameAction = false)
    (signed : ∀ sender, tx.sender host.crypto = .ok sender → sender ∈ signers)
    (stale : Stale host.crypto ledger.view tx)
    : Tracks host evmTxs signers start ledger (evm.executeTx host.crypto host.revm tx).2.db := by
  obtain ⟨sender, n, recovered, read, differs⟩ := stale
  have known := tracks.nonces sender (signed sender recovered)
  have single : (evm.db.infoOf sender).nonce = n := Except.ok.inj (known.symm.trans read)
  rw [(Execution.executeTx_ledger host isEvm recovered evm).2]
  apply tracks.congr
  cases run : (host.revm.transactCommit evm.chainId (EvmExecutor.txEnv sender tx.transaction)
      evm.db).1 with
  | error e => exact fundsOf_of_rejected laws run
  | ok result =>
      obtain ⟨had, _⟩ := laws.accepted evm.chainId _ evm.db result run
      exact absurd ((had _ rfl).symm.trans single) differs

/-- A due transaction that is accepted moves the same funds on both sides. -/
theorem Tracks.due (tracks : Tracks host evmTxs signers start ledger evm.db)
    (laws : host.revm.NonceLaws) (moves : host.revm.MovesFunds footprint)
    (counts : host.revm.CountsCallers signers) (isEvm : tx.isGameAction = false)
    {sender : Address} (recovered : tx.sender host.crypto = .ok sender) (signs : sender ∈ signers)
    (touches : footprint (EvmExecutor.txEnv sender tx.transaction) ⊆ covered host evmTxs start)
    {result : ExecutionResult}
    (run
      : (host.revm.transactCommit evm.chainId (EvmExecutor.txEnv sender tx.transaction)
          evm.db).1 = .ok result)
    (underway
      : Underway host evmTxs start (ledger.transact host evm.chainId sender tx.transaction))
    : Tracks host evmTxs signers start (ledger.transact host evm.chainId sender tx.transaction)
        (evm.executeTx host.crypto host.revm tx).2.db := by
  rw [(Execution.executeTx_ledger host isEvm recovered evm).2]
  obtain ⟨sameResult, sameFunds⟩ := moves.agree evm.chainId
    (EvmExecutor.txEnv sender tx.transaction) evm.db ledger.db
    (fun address member => tracks.inside address (touches member))
  have frame := moves.frame evm.chainId (EvmExecutor.txEnv sender tx.transaction)
  refine ⟨underway, ?_, ?_, ?_, ?_, ?_⟩
  -- entries: the transaction enters only accounts of its footprint
  · intro address member
    rcases moves.entries evm.chainId _ ledger.db address member with old | new
    · exact tracks.within address old
    · exact touches new
  -- covered accounts: both databases agree on the footprint, and keep the rest
  · intro address inside
    by_cases touched : address ∈ footprint (EvmExecutor.txEnv sender tx.transaction)
    · exact sameFunds address touched
    · exact (frame evm.db address touched).trans
        ((tracks.inside address inside).trans (frame ledger.db address touched).symm)
  · intro address outside
    obtain ⟨account, read, funds⟩ := tracks.outside address outside
    exact ⟨account, read,
      (frame evm.db address (fun touched => outside (touches touched))).trans funds⟩
  -- nonces: the world state counts the transaction, and so does the single database
  · intro other signs'
    have known := tracks.nonces other signs'
    have counted := counts.accepted evm.chainId _ evm.db result run signs other signs'
    obtain ⟨self, others⟩ := settle_countsNonce sender tx.transaction
      (host.revm.transactCommit evm.chainId (EvmExecutor.txEnv sender tx.transaction)
        ledger.db).1 ledger.view
    change (settle sender tx.transaction _ ledger.view).nonce other = .ok _
    by_cases same : other = sender
    · subst same
      rw [self _ known, CacheDb.fundsOf, CacheDb.fundsOf, counted]
      simp only [EvmExecutor.txEnv, if_true]
    · rw [others other same, known, CacheDb.fundsOf, CacheDb.fundsOf, counted]
      simp only [EvmExecutor.txEnv, same, if_false, Nat.add_zero]
  -- the caller of an accepted transaction has an entry, so no other account was settled
  · intro address missing
    have before : address ∉ ledger.db.accounts :=
      fun member => missing (laws.keeps evm.chainId _ ledger.db address member)
    have entered := (laws.accepted evm.chainId _ ledger.db result (sameResult.symm.trans run)).2.1
    have other : address ≠ sender := fun same => missing (same ▸ entered)
    exact (settle_of_ne other tx.transaction _ ledger.view).trans
      (tracks.untouched address before)

/-- A turn of the EVM pass keeps track of the single database. -/
theorem Tracks.evmTx (tracks : Tracks host evmTxs signers start ledger evm.db)
    (laws : host.revm.NonceLaws) (moves : host.revm.MovesFunds footprint)
    (counts : host.revm.CountsCallers signers) (isEvm : tx.isGameAction = false)
    (signed : ∀ sender, tx.sender host.crypto = .ok sender → sender ∈ signers)
    (touches
      : ∀ sender, tx.sender host.crypto = .ok sender →
          footprint (EvmExecutor.txEnv sender tx.transaction) ⊆ covered host evmTxs start)
    (paid : evm.rejectsDue host tx = false)
    (turn : ledger.evmTx host evm.chainId tx = (.ok (), after))
    : Tracks host evmTxs signers start after (evm.executeTx host.crypto host.revm tx).2.db := by
  have underway := @Underway.evmTx F host evm.chainId start ledger evmTxs tracks.underway laws tx
  rw [turn] at underway
  rcases guarded_ok_cases turn with ⟨stale, rfl⟩ | ⟨sender, due, rfl⟩
  · exact tracks.stale laws isEvm signed stale
  · have recovered := due.recovered
    have known := tracks.nonces sender (signed sender recovered)
    have single : tx.transaction.nonce = (evm.db.infoOf sender).nonce :=
      Except.ok.inj (due.nonce.symm.trans known)
    -- both nonces match, so a rejection by the single database is excluded
    cases run : (host.revm.transactCommit evm.chainId (EvmExecutor.txEnv sender tx.transaction)
        evm.db).1 with
    | error e =>
        simp [EvmExecutor.rejectsDue, recovered, single, Rejects, run] at paid
    | ok result =>
        exact tracks.due laws moves counts isEvm recovered (signed sender recovered)
          (touches sender recovered) run underway

/-- The EVM pass keeps track of the single database, by induction on its transactions. -/
theorem Tracks.run {txs : List SignedTransaction}
    (tracks : Tracks host evmTxs signers start ledger evm.db)
    (laws : host.revm.NonceLaws) (moves : host.revm.MovesFunds footprint)
    (counts : host.revm.CountsCallers signers)
    (isEvm : ∀ tx ∈ txs, tx.isGameAction = false)
    (signed : ∀ tx ∈ txs, ∀ sender, tx.sender host.crypto = .ok sender → sender ∈ signers)
    (touches
      : ∀ tx ∈ txs, ∀ sender, tx.sender host.crypto = .ok sender →
          footprint (EvmExecutor.txEnv sender tx.transaction) ⊆ covered host evmTxs start)
    (paid
      : ∀ turn ∈ Loop.turns (EvmExecutor.executeNext host) txs evm,
          turn.before.rejectsDue host turn.item = false)
    (ran : Loop.run (Ledger.evmTx host evm.chainId) txs ledger = (.ok (), after))
    : Tracks host evmTxs signers start after (evm.executeAll host txs).db := by
  induction txs generalizing ledger evm with
  | nil =>
      obtain rfl := (Prod.mk.inj ran).2
      exact tracks
  | cons tx rest ih =>
      have goesOn
          : EvmExecutor.executeNext host tx evm
            = (.ok (), (evm.executeTx host.crypto host.revm tx).2) := rfl
      rw [Loop.turns_cons_ok goesOn] at paid
      obtain ⟨paidFirst, paidRest⟩ := List.forall_mem_cons.mp paid
      obtain ⟨first, isEvm⟩ := List.forall_mem_cons.mp isEvm
      obtain ⟨signedFirst, signed⟩ := List.forall_mem_cons.mp signed
      obtain ⟨touchesFirst, touches⟩ := List.forall_mem_cons.mp touches
      obtain ⟨next, turn, ran⟩ := Loop.run_cons_ok_iff.mp ran
      rw [EvmExecutor.executeAll_cons]
      have sameId := (EvmExecutor.executeTx_frame moves tx evm).1
      rw [← sameId] at ran
      have tracksNext := tracks.evmTx laws moves counts first signedFirst touchesFirst
        paidFirst turn
      exact ih tracksNext isEvm signed touches paidRest ran

end Turn

-----------------------------------------------------------------------------------------
-- The flush hands the tracked funds to the node
-----------------------------------------------------------------------------------------

/-- The flush writes neither code nor storage. -/
theorem sameCode_flush (ledger : Ledger) : SameCode ledger.view ledger.flush.view := by
  intro address
  unfold flush
  cases found : ledger.db.accounts.lookup address with
  | none =>
      have kept := flush_of_none found ledger.view
      simp only [accountOrDefault, kept]
  | some entry =>
      rw [accountOrDefault_flush found]
      cases ledger.view.accountOrDefault address <;> rfl

/-- After the flush the node has the funds of the single database, by cases on whether an
account has an entry.
-/
theorem Tracks.flush {single : CacheDb}
    (tracks : Tracks host evmTxs signers start ledger single) (readable : start.Readable)
    : single.HasFunds ledger.flush.view := by
  intro address
  have code := tracks.underway.sameCode address
  obtain ⟨old, readOld⟩ := readableAt_iff.mp (readable address)
  by_cases member : address ∈ ledger.db.accounts
  · obtain ⟨entry, found⟩ := Finmap.mem_iff.mp member
    have same := tracks.inside address (tracks.within address member)
    cases read : ledger.view.accountOrDefault address with
    | error e => simp [readOld, read, Except.map] at code
    | ok account =>
        refine ⟨{ account with balance := entry.info.balance, nonce := entry.info.nonce }, ?_, ?_⟩
        · unfold Ledger.flush
          rw [accountOrDefault_flush found, read]
          rfl
        · rw [same, CacheDb.fundsOf_of_some found]
          rfl
  · have unflushed : ledger.flush.view address = start address :=
      (flush_of_none (Finmap.lookup_eq_none.mpr member) ledger.view).trans
        (tracks.untouched address member)
    refine ⟨old, by rw [accountOrDefault, unflushed]; exact readOld, ?_⟩
    by_cases inside : address ∈ covered host evmTxs start
    · obtain ⟨account, read, empty⟩ :=
        tracks.underway.funds_of_notMem readable inside member
      obtain rfl := Except.ok.inj (readOld.symm.trans read)
      rw [tracks.inside address inside, CacheDb.fundsOf_of_notMem member, empty]
    · obtain ⟨account, read, funds⟩ := tracks.outside address inside
      obtain rfl := Except.ok.inj (readOld.symm.trans read)
      exact funds

end Ledger

end VeloChain
