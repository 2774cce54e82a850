import VeloChain.Evm.NonceLaws

/-! Balances and nonces, apart from code and storage.
The node loads only balances and nonces into the EVM database and flushes only these back.
`MovesFunds` is what a transaction semantics does that needs nothing else.
-/

namespace VeloChain

/-- What the node loads of an account, and flushes back. -/
structure Funds where
  balance : U256
  nonce : Nat
  deriving DecidableEq

/-- What a database holds of an account beside its funds. -/
structure Contents where
  codeHash : B256
  code : Option Bytes
  storage : FinMap U256 U256

def Account.funds (account : Account) : Funds :=
  { balance := account.balance, nonce := account.nonce }

namespace CacheDb

variable (db : CacheDb)

/-- The funds of an account, none when it is not in the database. -/
def fundsOf (address : Address) : Funds :=
  { balance := (db.infoOf address).balance, nonce := (db.infoOf address).nonce }

/-- The contents of an account, empty when it is not in the database. -/
def contentsOf (address : Address) : Contents :=
  match db.accounts.lookup address with
  | some entry =>
      { codeHash := entry.info.codeHash, code := entry.info.code, storage := entry.storage }
  | none => { codeHash := 0, code := none, storage := ∅ }

variable {db} {address : Address}

theorem fundsOf_of_notMem (missing : address ∉ db.accounts)
    : db.fundsOf address = { balance := 0, nonce := 0 } := by
  rw [fundsOf, infoOf_of_notMem missing]

theorem fundsOf_of_some {entry : DbAccount} (found : db.accounts.lookup address = some entry)
    : db.fundsOf address = { balance := entry.info.balance, nonce := entry.info.nonce } := by
  rw [fundsOf, infoOf_of_some found]

theorem fundsOf_insertAccountInfo (address : Address) (info : AccountInfo) (db : CacheDb)
    : (db.insertAccountInfo address info).fundsOf
      = Function.update db.fundsOf address { balance := info.balance, nonce := info.nonce } := by
  funext other
  unfold fundsOf
  rw [infoOf_insertAccountInfo]
  by_cases same : other = address
  · subst same
    simp only [Function.update_self]
  · simp only [Function.update_of_ne same]

/-- New funds for an account leave the contents of all accounts. -/
theorem contentsOf_setFunds (address : Address) (balance : U256) (nonce : Nat) (db : CacheDb)
    : (db.insertAccountInfo address { db.infoOf address with balance, nonce }).contentsOf
      = db.contentsOf := by
  funext other
  unfold contentsOf insertAccountInfo infoOf
  by_cases same : other = address
  · subst same
    simp only [Finmap.lookup_insert]
    cases db.accounts.lookup other <;> rfl
  · simp only [Finmap.lookup_insert_of_ne _ same]

end CacheDb

/-- A transaction reads and writes funds of the accounts in its footprint, and nothing else. -/
structure Revm.MovesFunds (revm : Revm) (footprint : TxEnv → Set Address) : Prop where
  agree
    : ∀ chainId env db db',
        (∀ address ∈ footprint env, db.fundsOf address = db'.fundsOf address) →
          (revm.transactCommit chainId env db).1 = (revm.transactCommit chainId env db').1
          ∧ ∀ address ∈ footprint env,
              (revm.transactCommit chainId env db).2.fundsOf address
                = (revm.transactCommit chainId env db').2.fundsOf address
  frame
    : ∀ chainId env db, ∀ address ∉ footprint env,
        (revm.transactCommit chainId env db).2.fundsOf address = db.fundsOf address
  entries
    : ∀ chainId env db, ∀ address ∈ (revm.transactCommit chainId env db).2.accounts,
        address ∈ db.accounts ∨ address ∈ footprint env
  contents
    : ∀ chainId env db, (revm.transactCommit chainId env db).2.contentsOf = db.contentsOf

namespace Revm

/-- The caller and the recipient of a transaction. -/
def endpoints (env : TxEnv) : Set Address :=
  { address | address = env.caller ∨ env.transactTo = some address }

section Transfers

variable (env : TxEnv)

/-- The funds after a transfer was taken from its sender. -/
def debited (funds : Address → Funds) : Address → Funds :=
  Function.update funds env.caller
    { balance := (funds env.caller).balance - BitVec.ofNat 256 (transferCost env)
      nonce := (funds env.caller).nonce + 1 }

/-- The funds after a transfer was given to its recipient. -/
def credited (funds : Address → Funds) : Address → Funds :=
  match env.transactTo with
  | none => funds
  | some recipient =>
      Function.update funds recipient
        { funds recipient with balance := (funds recipient).balance + env.value }

variable (db : CacheDb)

theorem fundsOf_debit : (debit env db).fundsOf = debited env db.fundsOf :=
  CacheDb.fundsOf_insertAccountInfo _ _ db

theorem fundsOf_credit : (credit env db).fundsOf = credited env db.fundsOf := by
  unfold credit credited
  cases env.transactTo with
  | none => rfl
  | some recipient => exact CacheDb.fundsOf_insertAccountInfo _ _ db

theorem contentsOf_debit : (debit env db).contentsOf = db.contentsOf :=
  CacheDb.contentsOf_setFunds env.caller _ _ db

theorem contentsOf_credit : (credit env db).contentsOf = db.contentsOf := by
  unfold credit
  cases env.transactTo with
  | none => rfl
  | some recipient => exact CacheDb.contentsOf_setFunds recipient _ _ db

variable {env} {funds funds' : Address → Funds}

theorem debited_of_notMem {address : Address} (outside : address ∉ endpoints env)
    : debited env funds address = funds address :=
  Function.update_of_ne (fun same => outside (Or.inl same)) _ _

theorem credited_of_notMem {address : Address} (outside : address ∉ endpoints env)
    : credited env funds address = funds address := by
  unfold credited
  cases called : env.transactTo with
  | none => rfl
  | some recipient =>
      have other : address ≠ recipient := fun same => outside (Or.inr (same ▸ called))
      exact Function.update_of_ne other _ _

/-- The rejection of a transfer is decided by the funds of its sender. -/
theorem rejection_congr (chainId : UInt64) {db db' : CacheDb}
    (same : db.fundsOf env.caller = db'.fundsOf env.caller)
    : rejection chainId env db = rejection chainId env db' := by
  simp only [CacheDb.fundsOf, Funds.mk.injEq] at same
  simp only [rejection, same.1, same.2]

variable (agrees : ∀ address ∈ endpoints env, funds address = funds' address)

include agrees

theorem debited_congr
    : ∀ address ∈ endpoints env, debited env funds address = debited env funds' address := by
  intro address member
  have atCaller := agrees env.caller (Or.inl rfl)
  unfold debited
  simp only [Function.update_apply, atCaller, agrees address member]

theorem credited_congr
    : ∀ address ∈ endpoints env, credited env funds address = credited env funds' address := by
  intro address member
  unfold credited
  cases called : env.transactTo with
  | none => exact agrees address member
  | some recipient =>
      have atRecipient := agrees recipient (Or.inr called)
      simp only [Function.update_apply, atRecipient, agrees address member]

end Transfers

theorem transfers_movesFunds : MovesFunds transfers endpoints := by
  constructor
  · intro chainId env db db' agrees
    have verdict := rejection_congr chainId (agrees env.caller (Or.inl rfl))
    unfold transfers
    simp only [verdict]
    cases rejection chainId env db' with
    | some reason => exact ⟨rfl, agrees⟩
    | none =>
        refine ⟨rfl, ?_⟩
        simp only [fundsOf_credit, fundsOf_debit]
        exact credited_congr (debited_congr agrees)
  · intro chainId env db address outside
    rcases transfers_cases env db chainId with ⟨e, call⟩ | ⟨_, result, call⟩
    · rw [call]
    · rw [call, fundsOf_credit, fundsOf_debit, credited_of_notMem outside,
        debited_of_notMem outside]
  · intro chainId env db address member
    rcases transfers_cases env db chainId with ⟨e, call⟩ | ⟨_, result, call⟩
    · rw [call] at member
      exact Or.inl member
    · rw [call, mem_credit_debit] at member
      rcases member with called | isCaller | old
      · exact Or.inr (Or.inr called)
      · exact Or.inr (Or.inl isCaller)
      · exact Or.inl old
  · intro chainId env db
    rcases transfers_cases env db chainId with ⟨e, call⟩ | ⟨_, result, call⟩
    · rw [call]
    · rw [call, contentsOf_credit, contentsOf_debit]

end Revm

end VeloChain
