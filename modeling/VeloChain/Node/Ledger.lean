import VeloChain.Node.Chain

/-! The accounts of a node while it executes a block, without caches, receipts and gas.
A `Ledger` is the in-memory database of the EVM beside the view of the world state; the
passes of a block application refine its operations.
-/

namespace VeloChain

/-- The in-memory database of the EVM and the accounts readers of the world state see. -/
@[ext]
structure Ledger where
  db : CacheDb
  view : AccountView StateError

namespace Ledger

variable {F : Type} (host : Host F) (chainId : UInt64)

-----------------------------------------------------------------------------------------
-- Operations on ledgers
-----------------------------------------------------------------------------------------

/-- Enter an account into the in-memory database, if there is one to read. -/
def load (address : Address) (ledger : Ledger) : Ledger :=
  { ledger with db := EvmExecutor.loadedDb ledger.view address ledger.db }

/-- Load the sender and the recipient of a transaction. -/
def loadTx (ledger : Ledger) (tx : SignedTransaction) : Ledger :=
  let ledger :=
    match tx.sender host.crypto with
    | .ok sender => ledger.load sender
    | .error _ => ledger
  match tx.transaction.to with
  | some recipient => ledger.load recipient
  | none => ledger

/-- The bookkeeping of the world state after a transaction of `sender` has run: gas is paid
where there is an outcome, and the nonce goes up in every case.
-/
def settle (sender : Address) (tx : Transaction) (result : Except String ExecutionResult)
    (view : AccountView StateError) : AccountView StateError :=
  match result.toOption.bind (fun result => (EvmExecutor.outcome result).toOption) with
  | some outcome =>
      (view.modify sender (Account.pay (Execution.gasCost tx outcome))).modify sender
        Account.bumpNonce
  | none => view.modify sender Account.bumpNonce

/-- Run a transaction of `sender` on the in-memory database and settle it in the view. -/
def transact (sender : Address) (tx : Transaction) (ledger : Ledger) : Ledger :=
  let run := host.revm.transactCommit chainId (EvmExecutor.txEnv sender tx) ledger.db
  { db := run.2, view := settle sender tx run.1 ledger.view }

/-- The sender of a transaction and its nonce in the view. -/
def senderNonce (tx : SignedTransaction) (ledger : Ledger) : Except NodeError (Address × Nat) :=
  match tx.sender host.crypto with
  | .error e => .error (.internal s!"Sender recovery: {e}")
  | .ok sender =>
      match ledger.view.nonce sender with
      | .error e => .error (.internal s!"Nonce read: {e}")
      | .ok nonce => .ok (sender, nonce)

/-- A turn that takes effect only when the nonce of the transaction is that of its sender. -/
def guarded (effect : Address → SignedTransaction → Ledger → Ledger) (tx : SignedTransaction)
    (ledger : Ledger) : Except NodeError Unit × Ledger :=
  match ledger.senderNonce host tx with
  | .error e => (.error e, ledger)
  | .ok (sender, nonce) =>
      if tx.transaction.nonce = nonce then (.ok (), effect sender tx ledger)
      else (.ok (), ledger)

/-- One turn of the EVM pass. -/
def evmTx : SignedTransaction → Ledger → Except NodeError Unit × Ledger :=
  guarded host (fun sender tx => transact host chainId sender tx.transaction)

/-- Count a game action at its sender and take its gas, as far as the balance allows. -/
def countAction (sender : Address) (ledger : Ledger) : Ledger :=
  { ledger with
    view :=
      (ledger.view.modify sender Account.bumpNonce).modify sender
        (Account.pay (BitVec.ofNat 256 gameActionGas.toNat)) }

/-- One turn of the game pass, for a game action. -/
def countTx : SignedTransaction → Ledger → Except NodeError Unit × Ledger :=
  guarded host (fun sender _ => countAction sender)

/-- One turn of the game pass; other transactions are passed over. -/
def gameTx (tx : SignedTransaction) (ledger : Ledger) : Except NodeError Unit × Ledger :=
  if tx.isGameAction then ledger.countTx host tx else (.ok (), ledger)

/-- The accounts of the in-memory database flow back into the view. -/
def flush (ledger : Ledger) : Ledger :=
  { ledger with view := ledger.view.flush ledger.db.accounts }

/-- The ledger before the first transaction of a block. -/
def start (evmTxs : List SignedTransaction) (view : AccountView StateError) : Ledger :=
  evmTxs.foldl (loadTx host) { db := .empty, view }

/-- The entry an account is loaded as. -/
def entryOf (account : Account) : DbAccount :=
  { info := { balance := account.balance, nonce := account.nonce, codeHash := 0, code := none }
    storage := ∅ }

/-- The transaction names the address as its sender or its recipient. -/
def Names (tx : SignedTransaction) (address : Address) : Prop :=
  tx.sender host.crypto = .ok address ∨ tx.transaction.to = some address

/-- The database holds the accounts of the given addresses as they are loaded. -/
def Holds (view : AccountView StateError) (named : Address → Prop) (db : CacheDb) : Prop :=
  ∀ address entry,
    db.accounts.lookup address = some entry
      ↔ named address ∧ ∃ account, view address = .ok (some account) ∧ entry = entryOf account

-----------------------------------------------------------------------------------------
-- What is loaded before the first transaction
-----------------------------------------------------------------------------------------

theorem loadTx_view (tx : SignedTransaction) (ledger : Ledger)
    : (ledger.loadTx host tx).view = ledger.view := by
  unfold loadTx
  cases tx.sender host.crypto <;> cases tx.transaction.to <;> rfl

theorem Holds.load {ledger : Ledger} {named : Address → Prop}
    (holds : Holds ledger.view named ledger.db) (address : Address)
    : Holds ledger.view (fun other => named other ∨ other = address)
        (ledger.load address).db := by
  intro other entry
  unfold Ledger.load EvmExecutor.loadedDb
  by_cases same : other = address
  · subst same
    simp only [or_true, true_and]
    rcases read : ledger.view other with e | _ | account
    · have missing : ledger.db.accounts.lookup other ≠ some entry := by
        rw [ne_eq, holds other entry]
        simp [read]
      simp [missing]
    · have missing : ledger.db.accounts.lookup other ≠ some entry := by
        rw [ne_eq, holds other entry]
        simp [read]
      simp [missing]
    · have bare
          : ((ledger.db.accounts.lookup other).map DbAccount.storage).getD ∅ = ∅ := by
        cases found : ledger.db.accounts.lookup other with
        | none => rfl
        | some stored =>
            obtain ⟨_, _, _, rfl⟩ := (holds other stored).mp found
            rfl
      simp only [CacheDb.insertAccountInfo, Finmap.lookup_insert, bare, Option.some.injEq,
        Except.ok.injEq, exists_eq_left']
      exact eq_comm
  · simp only [same, or_false]
    rcases ledger.view address with e | _ | account
    · exact holds other entry
    · exact holds other entry
    · simp only [CacheDb.insertAccountInfo, Finmap.lookup_insert_of_ne _ same]
      exact holds other entry

theorem Holds.congr {view : AccountView StateError} {named named' : Address → Prop}
    {db : CacheDb} (holds : Holds view named db)
    (same : ∀ address, named' address ↔ named address)
    : Holds view named' db := by
  intro address entry
  rw [same]
  exact holds address entry

theorem Holds.loadTx {ledger : Ledger} {named : Address → Prop}
    (holds : Holds ledger.view named ledger.db) (tx : SignedTransaction)
    : Holds ledger.view (fun other => named other ∨ Names host tx other)
        (ledger.loadTx host tx).db := by
  unfold Ledger.loadTx Names
  cases tx.sender host.crypto with
  | error e =>
      cases tx.transaction.to with
      | none => exact holds.congr (by simp)
      | some recipient => exact (holds.load recipient).congr (by simp [eq_comm])
  | ok sender =>
      have first := holds.load sender
      cases tx.transaction.to with
      | none => exact first.congr (by simp [eq_comm])
      | some recipient =>
          have second := @Holds.load (ledger.load sender) _ first recipient
          exact second.congr (by simp [eq_comm, or_assoc])

/-- Loading accounts changes nothing a reader sees. -/
theorem start_view (evmTxs : List SignedTransaction) (view : AccountView StateError)
    : (start host evmTxs view).view = view := by
  have all (ledger : Ledger)
      : (evmTxs.foldl (Ledger.loadTx host) ledger).view = ledger.view := by
    induction evmTxs generalizing ledger with
    | nil => rfl
    | cons tx rest ih => exact (ih _).trans (loadTx_view host tx ledger)
  exact all _

/-- Before the first transaction, the in-memory database holds exactly the existing accounts
the transactions name.
-/
theorem start_holds (evmTxs : List SignedTransaction) (view : AccountView StateError)
    : Holds view (fun address => ∃ tx ∈ evmTxs, Names host tx address)
        (start host evmTxs view).db := by
  have all (named : Address → Prop) (ledger : Ledger) (same : ledger.view = view)
      (holds : Holds view named ledger.db)
      : Holds view (fun address => named address ∨ ∃ tx ∈ evmTxs, Names host tx address)
          (evmTxs.foldl (Ledger.loadTx host) ledger).db := by
    induction evmTxs generalizing named ledger with
    | nil => exact holds.congr (by simp)
    | cons tx rest ih =>
        subst same
        exact (ih _ (ledger.loadTx host tx) (loadTx_view host tx ledger)
          (holds.loadTx host tx)).congr (by simp [or_assoc])
  have nothing : Holds view (fun _ => False) CacheDb.empty := by
    intro address entry
    simp [CacheDb.empty]
  exact (all _ _ rfl nothing).congr (by simp)

/-- An account that no transaction names has no entry before the first transaction. -/
theorem notMem_start_of_unnamed {evmTxs : List SignedTransaction}
    {view : AccountView StateError} {address : Address}
    (unnamed : ¬ ∃ tx ∈ evmTxs, Names host tx address)
    : address ∉ (start host evmTxs view).db.accounts := by
  intro member
  obtain ⟨entry, found⟩ := Finmap.mem_iff.mp member
  exact unnamed ((start_holds host evmTxs view address entry).mp found).1

/-- A named account starts with its balance and nonce, whether it exists or not. -/
theorem infoOf_start {evmTxs : List SignedTransaction} {view : AccountView StateError}
    {address : Address} (named : ∃ tx ∈ evmTxs, Names host tx address) {account : Account}
    (read : view.accountOrDefault address = .ok account)
    : (start host evmTxs view).db.infoOf address = (entryOf account).info := by
  have entered := start_holds host evmTxs view address
  unfold AccountView.accountOrDefault at read
  rcases known : view address with e | _ | stored
  · simp [known, Except.map] at read
  · have missing : address ∉ (start host evmTxs view).db.accounts := by
      intro member
      obtain ⟨entry, found⟩ := Finmap.mem_iff.mp member
      obtain ⟨_, account, existing, _⟩ := (entered entry).mp found
      simp [known] at existing
    obtain rfl : Account.default = account := by simpa [known, Except.map] using read
    rw [CacheDb.infoOf_of_notMem missing]
    rfl
  · obtain rfl : stored = account := by simpa [known, Except.map] using read
    exact CacheDb.infoOf_of_some ((entered (entryOf stored)).mpr ⟨named, stored, known, rfl⟩)

/-- Loaded accounts can be read. -/
theorem Holds.readable {view : AccountView StateError} {named : Address → Prop} {db : CacheDb}
    (holds : Holds view named db)
    : ∀ address ∈ db.accounts, view.ReadableAt address := by
  intro address member
  obtain ⟨entry, found⟩ := Finmap.mem_iff.mp member
  obtain ⟨_, account, read, _⟩ := (holds address entry).mp found
  exact ⟨_, read⟩

/-- Flushing accounts as they were loaded changes nothing. -/
theorem Holds.flush {view : AccountView StateError} {named : Address → Prop} {db : CacheDb}
    (holds : Holds view named db)
    : view.flush db.accounts = view := by
  funext address
  cases found : db.accounts.lookup address with
  | none => exact AccountView.flush_of_none found view
  | some entry =>
      obtain ⟨_, account, read, rfl⟩ := (holds address entry).mp found
      simp only [AccountView.flush, found, AccountView.accountOrDefault, read, Except.map,
        Option.getD_some, entryOf]

end Ledger

-----------------------------------------------------------------------------------------
-- The passes refine the operations on ledgers
-----------------------------------------------------------------------------------------

namespace Execution

variable {F : Type} (host : Host F) (db : Database) (block : Block)

/-- The accounts of an execution. -/
def ledger (execution : Execution) : Ledger :=
  { db := execution.evm.db, view := execution.state.view host.account db }

/-- A read of a nonce, seen from the ledger. -/
theorem getNonce_ledger {execution : Execution} {sender : Address}
    {result : Except StateError Nat} {state : WorldState}
    (read : execution.state.getNonce host.account db sender = (result, state))
    : (execution.ledger host db).view.nonce sender = result
      ∧ state.view host.account db = (execution.ledger host db).view := by
  have value := WorldState.getNonce_result host.account db sender execution.state
  have same := WorldState.view_getNonce host.account db sender execution.state
  rw [read] at value same
  exact ⟨value.symm, same⟩

/-- Running a transaction that is not a game action, seen from the ledger. -/
theorem executeTx_ledger {tx : SignedTransaction} (isEvm : tx.isGameAction = false)
    {sender : Address} (recovered : tx.sender host.crypto = .ok sender) (evm : EvmExecutor)
    : (evm.executeTx host.crypto host.revm tx).1.toOption
        = (host.revm.transactCommit evm.chainId (EvmExecutor.txEnv sender tx.transaction)
            evm.db).1.toOption.bind (fun result => (EvmExecutor.outcome result).toOption)
      ∧ (evm.executeTx host.crypto host.revm tx).2
        = { evm with
            db := (host.revm.transactCommit evm.chainId
              (EvmExecutor.txEnv sender tx.transaction) evm.db).2 } := by
  unfold EvmExecutor.executeTx
  simp only [isEvm, Bool.false_eq_true, if_false, recovered]
  rcases host.revm.transactCommit evm.chainId (EvmExecutor.txEnv sender tx.transaction) evm.db
    with ⟨_ | result, next⟩
  · exact ⟨rfl, rfl⟩
  · exact ⟨rfl, rfl⟩

/-- An outcome is that of a transaction that the interpreter has not rejected. -/
theorem exists_result_of_executeTx {tx : SignedTransaction} (isEvm : tx.isGameAction = false)
    {sender : Address} (recovered : tx.sender host.crypto = .ok sender) {evm : EvmExecutor}
    {outcome : ExecutionOutcome}
    (executed : (evm.executeTx host.crypto host.revm tx).1 = .ok outcome)
    : ∃ result,
        (host.revm.transactCommit evm.chainId (EvmExecutor.txEnv sender tx.transaction) evm.db).1
          = .ok result
        ∧ EvmExecutor.outcome result = .ok outcome := by
  have seen := (executeTx_ledger host isEvm recovered evm).1
  rw [executed] at seen
  cases run : (host.revm.transactCommit evm.chainId
      (EvmExecutor.txEnv sender tx.transaction) evm.db).1 with
  | error e => simp [run, Except.toOption] at seen
  | ok result =>
      refine ⟨result, rfl, ?_⟩
      simp only [run, Except.toOption, Option.bind_some] at seen
      cases reports : EvmExecutor.outcome result with
      | error e => simp [reports] at seen
      | ok outcome' => simpa [reports, eq_comm] using seen

/-- A turn of the EVM pass refines the turn on ledgers and keeps the chain id. -/
theorem executeEvmTx_refines {tx : SignedTransaction} (isEvm : tx.isGameAction = false)
    (execution : Execution)
    : (executeEvmTx host db block tx execution).1
        = ((execution.ledger host db).evmTx host execution.evm.chainId tx).1
      ∧ (executeEvmTx host db block tx execution).2.ledger host db
        = ((execution.ledger host db).evmTx host execution.evm.chainId tx).2
      ∧ (executeEvmTx host db block tx execution).2.evm.chainId = execution.evm.chainId := by
  unfold executeEvmTx Ledger.evmTx Ledger.guarded Ledger.senderNonce
  cases recovered : tx.sender host.crypto with
  | error e => exact ⟨rfl, rfl, rfl⟩
  | ok sender =>
      rcases read : execution.state.getNonce host.account db sender with ⟨_ | nonce, state⟩
      · obtain ⟨value, same⟩ := getNonce_ledger host db read
        simp only [read, value]
        exact ⟨trivial, Ledger.ext rfl same, trivial⟩
      · obtain ⟨value, same⟩ := getNonce_ledger host db read
        by_cases counted : tx.transaction.nonce = nonce
        · obtain ⟨outcome, evm⟩ := executeTx_ledger host isEvm recovered execution.evm
          simp only [read, value, counted, ne_eq, not_true_eq_false, if_false, if_true]
          rcases run : execution.evm.executeTx host.crypto host.revm tx with ⟨_ | done, next⟩
          · rw [run] at outcome evm
            simp only at evm
            subst evm
            refine ⟨rfl, Ledger.ext rfl ?_, rfl⟩
            change (state.incrementNonce host.account db sender).2.view host.account db
              = Ledger.settle sender tx.transaction _ _
            rw [WorldState.view_incrementNonce, same, Ledger.settle, ledger, ← outcome]
            rfl
          · rw [run] at outcome evm
            simp only at evm
            subst evm
            refine ⟨rfl, Ledger.ext rfl ?_, rfl⟩
            change (((state.subBalance host.account db sender
                (gasCost tx.transaction done)).2).incrementNonce host.account db sender).2.view
                  host.account db
              = Ledger.settle sender tx.transaction _ _
            rw [WorldState.view_incrementNonce, WorldState.view_subBalance, same,
              Ledger.settle, ledger, ← outcome]
            rfl
        · simp only [read, value, counted, ne_eq, not_false_eq_true, if_true, if_false]
          exact ⟨trivial, Ledger.ext rfl same, rfl⟩

/-- A turn of the game pass refines the turn on ledgers and leaves the EVM as it is. -/
theorem processGameTx_refines (tx : SignedTransaction) (execution : Execution)
    : (processGameTx host db block tx execution).1
        = ((execution.ledger host db).gameTx host tx).1
      ∧ (processGameTx host db block tx execution).2.ledger host db
        = ((execution.ledger host db).gameTx host tx).2
      ∧ (processGameTx host db block tx execution).2.evm = execution.evm := by
  unfold processGameTx Ledger.gameTx Ledger.countTx Ledger.guarded Ledger.senderNonce
  by_cases isGame : tx.isGameAction = true
  · simp only [isGame, if_true]
    cases recovered : tx.sender host.crypto with
    | error e => exact ⟨rfl, rfl, rfl⟩
    | ok sender =>
        rcases read : execution.state.getNonce host.account db sender with ⟨_ | nonce, state⟩
        · obtain ⟨value, same⟩ := getNonce_ledger host db read
          simp only [read, value]
          exact ⟨trivial, Ledger.ext rfl same, trivial⟩
        · obtain ⟨value, same⟩ := getNonce_ledger host db read
          by_cases counted : tx.transaction.nonce = nonce
          · simp only [read, value, counted, beq_self_eq_true, if_true]
            refine ⟨trivial, Ledger.ext rfl ?_, rfl⟩
            change (((state.incrementNonce host.account db sender).2).subBalance host.account db
                sender _).2.view host.account db
              = _
            rw [WorldState.view_subBalance, WorldState.view_incrementNonce, same]
            rfl
          · have differs : (tx.transaction.nonce == nonce) = false := by
              rw [beq_eq_false_iff_ne]
              exact counted
            simp only [read, value, counted, differs, Bool.false_eq_true, if_false]
            exact ⟨trivial, Ledger.ext rfl same, rfl⟩
  · simp only [isGame, if_false, Bool.false_eq_true, and_self]

theorem load_refines (address : Address) (execution : Execution)
    : (execution.load host db address).ledger host db = (execution.ledger host db).load address
      ∧ (execution.load host db address).evm.chainId = execution.evm.chainId := by
  have loaded := EvmExecutor.loadAccount_db host.account db address execution.evm
    execution.state
  have ids := congrArg EvmExecutor.chainId loaded
  have dbs := congrArg EvmExecutor.db loaded
  refine ⟨Ledger.ext ?_ ?_, ids⟩
  · exact dbs
  · exact EvmExecutor.view_loadAccount host.account db address execution.evm execution.state

theorem loadTx_refines (tx : SignedTransaction) (execution : Execution)
    : (execution.loadTx host db tx).ledger host db
        = (execution.ledger host db).loadTx host tx
      ∧ (execution.loadTx host db tx).evm.chainId = execution.evm.chainId := by
  unfold loadTx Ledger.loadTx
  cases tx.sender host.crypto with
  | error e =>
      cases tx.transaction.to with
      | none => exact ⟨rfl, rfl⟩
      | some recipient => exact load_refines host db recipient execution
  | ok sender =>
      obtain ⟨first, firstId⟩ := load_refines host db sender execution
      cases tx.transaction.to with
      | none => exact ⟨first, firstId⟩
      | some recipient =>
          obtain ⟨second, secondId⟩ := load_refines host db recipient
            (execution.load host db sender)
          exact ⟨second.trans (by rw [first]), secondId.trans firstId⟩

theorem start_refines (evmTxs : List SignedTransaction) (gasUsed : UInt64) (evm : EvmExecutor)
    (state : WorldState)
    : (start host db evmTxs gasUsed evm state).ledger host db
        = Ledger.start host evmTxs (state.view host.account db)
      ∧ (start host db evmTxs gasUsed evm state).evm.chainId = evm.chainId := by
  have loaded (execution : Execution)
      : (evmTxs.foldl (fun x tx => x.loadTx host db tx) execution).ledger host db
          = evmTxs.foldl (Ledger.loadTx host) (execution.ledger host db)
        ∧ (evmTxs.foldl (fun x tx => x.loadTx host db tx) execution).evm.chainId
          = execution.evm.chainId := by
    induction evmTxs generalizing execution with
    | nil => exact ⟨rfl, rfl⟩
    | cons tx rest ih =>
        obtain ⟨first, firstId⟩ := loadTx_refines host db tx execution
        obtain ⟨later, laterId⟩ := ih (execution.loadTx host db tx)
        exact ⟨later.trans (by rw [first, List.foldl_cons]), laterId.trans firstId⟩
  exact loaded _

/-- The EVM pass refines the pass over ledgers. -/
theorem runEvm_refines {evmTxs : List SignedTransaction}
    (allEvm : ∀ tx ∈ evmTxs, tx.isGameAction = false) {execution : Execution}
    {chainId : UInt64} (sameId : execution.evm.chainId = chainId)
    : (execution.runEvm host db block evmTxs).1
        = (Loop.run (Ledger.evmTx host chainId) evmTxs (execution.ledger host db)).1
      ∧ (execution.runEvm host db block evmTxs).2.ledger host db
        = (Loop.run (Ledger.evmTx host chainId) evmTxs (execution.ledger host db)).2
      ∧ (execution.runEvm host db block evmTxs).2.evm.chainId = chainId := by
  refine Loop.run_lockstep
    (fun (x : Execution) l => x.ledger host db = l ∧ x.evm.chainId = chainId) ?_
    ⟨rfl, sameId⟩
  intro tx member x l held
  obtain ⟨rfl, rfl⟩ := held
  exact executeEvmTx_refines host db block (allEvm tx member) x

/-- The game pass refines the pass over ledgers. -/
theorem runGame_refines (execution : Execution)
    : (execution.runGame host db block).1
        = (Loop.run (Ledger.gameTx host) block.body.transactions (execution.ledger host db)).1
      ∧ (execution.runGame host db block).2.ledger host db
        = (Loop.run (Ledger.gameTx host) block.body.transactions
            (execution.ledger host db)).2 := by
  refine Loop.run_lockstep (fun (x : Execution) l => x.ledger host db = l) ?_ rfl
  intro tx _ x l held
  subst held
  obtain ⟨result, ledger, _⟩ := processGameTx_refines host db block tx x
  exact ⟨result, ledger⟩

/-- Flushing readable accounts refines the flush of ledgers, in every order. -/
theorem flush_refines (order : IterationOrder Address DbAccount) (execution : Execution)
    (readable
      : ∀ address ∈ execution.evm.db.accounts,
          (execution.state.view host.account db).ReadableAt address)
    : (execution.flush host db order).ledger host db = (execution.ledger host db).flush :=
  Ledger.ext rfl (EvmExecutor.view_flushToState order execution.evm readable).2

end Execution

end VeloChain
