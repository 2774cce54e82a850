import VeloChain.Lib.Loop
import VeloChain.State.WorldState

/-! The EVM executor: accounts are loaded into an in-memory database, transactions run on it,
and balances and nonces are flushed back to the world state.
The interpreter revm is another library; it enters as the transaction function of `Revm`.
-/

namespace VeloChain

structure Log where
  address : Address
  topics : List B256
  data : Bytes
  deriving DecidableEq

/-- Result of executing a transaction through the EVM. -/
structure ExecutionOutcome where
  success : Bool
  gasUsed : UInt64
  output : Bytes
  logs : List Log
  contractAddress : Option Address
  deriving DecidableEq

inductive EvmError
  | halt (message : String)
  | invalidTransaction (message : String)
  | internal (message : String)
  deriving DecidableEq

structure AccountInfo where
  balance : U256
  nonce : Nat
  codeHash : B256
  code : Option Bytes

/-- An account of the in-memory database: its info and its storage slots. -/
structure DbAccount where
  info : AccountInfo
  storage : FinMap U256 U256

/-- The in-memory database over an empty one. -/
structure CacheDb where
  accounts : FinMap Address DbAccount

/-- The transaction environment of revm. -/
structure TxEnv where
  caller : Address
  transactTo : Option Address
  value : U256
  data : Bytes
  gasLimit : UInt64
  gasPrice : U256
  nonce : Option Nat
  chainId : Option UInt64

inductive Output
  | call (data : Bytes)
  | create (data : Bytes) (address : Option Address)

inductive ExecutionResult
  | success (gasUsed : UInt64) (output : Output) (logs : List Log)
  | revert (gasUsed : UInt64) (output : Bytes)
  | halt (reason : String) (gasUsed : UInt64)

/-- The transaction semantics of revm: for a configured chain id, run one transaction on a
database and commit its changes; an error rejects the transaction.
-/
structure Revm where
  transactCommit : UInt64 → TxEnv → CacheDb → Except String ExecutionResult × CacheDb

-----------------------------------------------------------------------------------------
-- The in-memory database
-----------------------------------------------------------------------------------------

namespace CacheDb

def empty : CacheDb := { accounts := ∅ }

/-- Set the info of an account, keeping its storage. -/
def insertAccountInfo (address : Address) (info : AccountInfo) (db : CacheDb) : CacheDb :=
  { accounts := db.accounts.insert address
      { info, storage := ((db.accounts.lookup address).map DbAccount.storage).getD ∅ } }

/-- The info of an account, empty when it is not in the database. -/
def infoOf (db : CacheDb) (address : Address) : AccountInfo :=
  match db.accounts.lookup address with
  | some entry => entry.info
  | none => { balance := 0, nonce := 0, codeHash := 0, code := none }

theorem infoOf_of_some {db : CacheDb} {address : Address} {entry : DbAccount}
    (found : db.accounts.lookup address = some entry)
    : db.infoOf address = entry.info := by
  simp only [infoOf, found]

theorem infoOf_of_notMem {db : CacheDb} {address : Address} (missing : address ∉ db.accounts)
    : db.infoOf address = { balance := 0, nonce := 0, codeHash := 0, code := none } := by
  simp only [infoOf, Finmap.lookup_eq_none.mpr missing]

theorem infoOf_insertAccountInfo (address : Address) (info : AccountInfo) (db : CacheDb)
    : (db.insertAccountInfo address info).infoOf
      = Function.update db.infoOf address info := by
  funext other
  by_cases same : other = address
  · subst same
    simp only [infoOf, insertAccountInfo, Finmap.lookup_insert, Function.update_self]
  · simp only [infoOf, insertAccountInfo, Finmap.lookup_insert_of_ne _ same,
      Function.update_of_ne same]

theorem mem_insertAccountInfo {address other : Address} {info : AccountInfo} {db : CacheDb}
    : other ∈ (db.insertAccountInfo address info).accounts
      ↔ other = address ∨ other ∈ db.accounts := by
  simp only [insertAccountInfo, Finmap.mem_insert]

end CacheDb

/-- EVM executor that processes transactions. -/
structure EvmExecutor where
  chainId : UInt64
  db : CacheDb

namespace EvmExecutor

-----------------------------------------------------------------------------------------
-- The executor
-----------------------------------------------------------------------------------------

/-- Create a new EVM executor. -/
def new (chainId : UInt64) : EvmExecutor := { chainId, db := .empty }

/-- Reset the in-memory EVM database for a new block. -/
def reset (evm : EvmExecutor) : EvmExecutor := { evm with db := .empty }

/-- The environment a transaction of `sender` runs in. -/
def txEnv (sender : Address) (tx : Transaction) : TxEnv :=
  { caller := sender
    transactTo := tx.to
    value := tx.value
    data := tx.input
    gasLimit := tx.gasLimit
    gasPrice := ((tx.gasPrice.getD 0).setWidth 256 : U256)
    nonce := some tx.nonce
    chainId := some tx.chainId }

/-- What the executor reports of a committed transaction. -/
def outcome : ExecutionResult → Except EvmError ExecutionOutcome
  | .success gasUsed (.call data) logs =>
      .ok { success := true, gasUsed, output := data, logs, contractAddress := none }
  | .success gasUsed (.create data address) logs =>
      .ok { success := true, gasUsed, output := data, logs, contractAddress := address }
  | .revert gasUsed output =>
      .ok { success := false, gasUsed, output, logs := [], contractAddress := none }
  | .halt reason gasUsed => .error (.halt s!"{reason}, gas_used={gasUsed}")

variable (crypto : Crypto) (revm : Revm)

/-- Execute an EVM transaction. A halted transaction is an error although it is committed. -/
def executeTx (tx : SignedTransaction) (evm : EvmExecutor)
    : Except EvmError ExecutionOutcome × EvmExecutor :=
  if tx.isGameAction then
    (.error (.invalidTransaction "Game actions are not executed through EVM"), evm)
  else
    match tx.sender crypto with
    | .error e => (.error (.invalidTransaction s!"Failed to recover sender: {e}"), evm)
    | .ok sender =>
        match revm.transactCommit evm.chainId (txEnv sender tx.transaction) evm.db with
        | (.error e, db) => (.error (.internal e), { evm with db })
        | (.ok result, db) => (outcome result, { evm with db })

variable (codec : Codec Account) (database : Database)

/-- Load an account from the world state into the in-memory database, without code and
storage. An account that cannot be read is not loaded.
-/
def loadAccount (address : Address) (evm : EvmExecutor) (state : WorldState)
    : EvmExecutor × WorldState :=
  match state.getAccount codec database address with
  | (.ok (some account), state) =>
      -- the code hash of the account is left out as well
      ({ evm with
          db := evm.db.insertAccountInfo address
            { balance := account.balance, nonce := account.nonce, codeHash := 0, code := none } },
        state)
  | (_, state) => (evm, state)

/-- Write the balance and nonce of one account of the in-memory database back. -/
def flushAccount (accounts : FinMap Address DbAccount) (address : Address)
    (state : WorldState)
    : Except EvmError Unit × WorldState :=
  match accounts.lookup address with
  | none => (.ok (), state)
  | some entry =>
      match state.getOrCreateAccount codec database address with
      | (.error e, state) => (.error (.internal s!"State read error: {e}"), state)
      | (.ok account, state) =>
          -- also where the entry was never loaded and its balance is not that of the account
          (.ok (), state.putAccount address
            { account with balance := entry.info.balance, nonce := entry.info.nonce })

/-- Flush EVM state changes back to the world state after block execution, in the order in
which the accounts are iterated. The first unreadable account ends the flush.
-/
def flushToState (order : IterationOrder Address DbAccount) (evm : EvmExecutor)
    (state : WorldState)
    : Except EvmError Unit × WorldState :=
  Loop.run (flushAccount codec database evm.db.accounts) (order.keys evm.db.accounts) state

end EvmExecutor

/-- The view after the accounts of an in-memory database are flushed into it. -/
def AccountView.flush {ε : Type} (accounts : FinMap Address DbAccount) (view : AccountView ε)
    : AccountView ε := fun address =>
  match accounts.lookup address with
  | none => view address
  | some entry =>
      (view.accountOrDefault address).map (fun account =>
        some { account with balance := entry.info.balance, nonce := entry.info.nonce })

namespace AccountView

variable {ε : Type}

theorem flush_congr (accounts : FinMap Address DbAccount) {left right : AccountView ε}
    {address : Address} (h : left address = right address)
    : left.flush accounts address = right.flush accounts address := by
  simp only [flush, accountOrDefault, h]

theorem flush_of_none {accounts : FinMap Address DbAccount} {address : Address}
    (h : accounts.lookup address = none) (view : AccountView ε)
    : view.flush accounts address = view address := by
  simp only [flush, h]

/-- A flushed account has the balance and nonce of the in-memory database. -/
theorem accountOrDefault_flush {accounts : FinMap Address DbAccount} {address : Address}
    {entry : DbAccount} (h : accounts.lookup address = some entry) (view : AccountView ε)
    : (view.flush accounts).accountOrDefault address
      = (view.accountOrDefault address).map (fun account =>
          { account with balance := entry.info.balance, nonce := entry.info.nonce }) := by
  rw [accountOrDefault, flush, h]
  simp only
  cases view.accountOrDefault address <;> rfl

/-- A flushed account has the nonce of the in-memory database. -/
theorem nonce_flush {accounts : FinMap Address DbAccount} {address : Address}
    {entry : DbAccount} (h : accounts.lookup address = some entry) {view : AccountView ε}
    (readable : view.ReadableAt address)
    : (view.flush accounts).nonce address = .ok entry.info.nonce := by
  obtain ⟨account, read⟩ := readableAt_iff.mp readable
  have flushed := accountOrDefault_flush h view
  rw [read] at flushed
  exact nonce_eq flushed

end AccountView

namespace EvmExecutor

-----------------------------------------------------------------------------------------
-- Loading and flushing, seen from the view
-----------------------------------------------------------------------------------------

section Loading

variable (codec : Codec Account) (database : Database)

/-- The in-memory database after loading an address: its account is entered if it has one. -/
def loadedDb (view : AccountView StateError) (address : Address) (db : CacheDb) : CacheDb :=
  match view address with
  | .ok (some account) =>
      db.insertAccountInfo address
        { balance := account.balance, nonce := account.nonce, codeHash := 0, code := none }
  | _ => db

theorem loadAccount_db (address : Address) (evm : EvmExecutor) (state : WorldState)
    : (loadAccount codec database address evm state).1
      = { evm with db := loadedDb (state.view codec database) address evm.db } := by
  unfold loadAccount loadedDb
  rw [← WorldState.getAccount_result]
  rcases state.getAccount codec database address with ⟨_ | _ | account, next⟩ <;> rfl

/-- Loading an account changes nothing a reader of the world state sees. -/
@[simp]
theorem view_loadAccount (address : Address) (evm : EvmExecutor) (state : WorldState)
    : (loadAccount codec database address evm state).2.view codec database
      = state.view codec database := by
  have same := WorldState.view_getAccount codec database address state
  unfold loadAccount
  rcases read : state.getAccount codec database address with ⟨_ | _ | account, next⟩ <;>
    simpa only [read] using same

end Loading

section Flushing

variable {codec : Codec Account} {database : Database}

theorem view_flushAccount (accounts : FinMap Address DbAccount) {address : Address}
    {state : WorldState}
    (readable : (state.view codec database).ReadableAt address)
    : (flushAccount codec database accounts address state).1 = .ok ()
      ∧ (flushAccount codec database accounts address state).2.view codec database
        = Function.update (state.view codec database) address
            ((state.view codec database).flush accounts address) := by
  obtain ⟨account, read⟩ := AccountView.readableAt_iff.mp readable
  unfold flushAccount AccountView.flush
  cases accounts.lookup address with
  | none => simp only [Function.update_eq_self, and_self]
  | some entry =>
      have result := WorldState.getOrCreateAccount_result codec database address state
      have same := WorldState.view_getOrCreateAccount codec database address state
      rw [read] at result
      rcases call : state.getOrCreateAccount codec database address with ⟨found, next⟩
      simp only [call] at result same
      subst result
      simp only [WorldState.view_putAccount, same, read, Except.map, and_self]

/-- A loop over readable accounts flushes exactly the listed ones. -/
theorem run_flushAccount (accounts : FinMap Address DbAccount) {addresses : List Address}
    (nodup : addresses.Nodup) {state : WorldState}
    (readable : ∀ address ∈ addresses, (state.view codec database).ReadableAt address)
    : (Loop.run (flushAccount codec database accounts) addresses state).1 = .ok ()
      ∧ ∀ address,
          (Loop.run (flushAccount codec database accounts) addresses state).2.view codec
              database address
            = if address ∈ addresses then (state.view codec database).flush accounts address
              else state.view codec database address := by
  induction addresses generalizing state with
  | nil => simp
  | cons head rest ih =>
      obtain ⟨fresh, nodup⟩ := List.nodup_cons.mp nodup
      obtain ⟨flushed, seen⟩
        := view_flushAccount accounts (readable head List.mem_cons_self)
      rcases turn : flushAccount codec database accounts head state with ⟨result, next⟩
      simp only [turn] at flushed seen
      subst flushed
      have kept : ∀ address ∈ rest,
          next.view codec database address = state.view codec database address := by
        intro address member
        have other : address ≠ head := fun same => fresh (by rwa [← same])
        rw [seen, Function.update_of_ne other]
      have later : ∀ address ∈ rest, (next.view codec database).ReadableAt address := by
        intro address member
        obtain ⟨found, read⟩ := readable address (List.mem_cons_of_mem head member)
        exact ⟨found, (kept address member).trans read⟩
      rw [Loop.run_cons_ok turn]
      refine ⟨(ih nodup later).1, ?_⟩
      intro address
      rw [(ih nodup later).2 address]
      by_cases inRest : address ∈ rest
      · simp only [inRest, List.mem_cons, or_true, if_true]
        exact AccountView.flush_congr accounts (kept address inRest)
      · simp only [inRest, List.mem_cons, or_false, if_false, seen]
        by_cases same : address = head
        · subst same
          simp only [Function.update_self, if_true]
        · simp only [Function.update_of_ne same, same, if_false]

/-- When every account of the in-memory database can be read, the flush succeeds and its
result does not depend on the order of iteration.
-/
theorem view_flushToState (order : IterationOrder Address DbAccount) (evm : EvmExecutor)
    {state : WorldState}
    (readable
      : ∀ address ∈ evm.db.accounts, (state.view codec database).ReadableAt address)
    : (flushToState codec database order evm state).1 = .ok ()
      ∧ (flushToState codec database order evm state).2.view codec database
        = (state.view codec database).flush evm.db.accounts := by
  have listed := run_flushAccount evm.db.accounts (order.nodup evm.db.accounts)
    (fun address member => readable address ((order.mem_keys _ _).mp member))
  refine ⟨listed.1, ?_⟩
  funext address
  unfold flushToState
  rw [listed.2 address]
  by_cases present : address ∈ evm.db.accounts
  · rw [if_pos ((order.mem_keys _ _).mpr present)]
  · rw [if_neg (fun member => present ((order.mem_keys _ _).mp member)),
      AccountView.flush_of_none (Finmap.lookup_eq_none.mpr present)]

end Flushing

end EvmExecutor

end VeloChain
