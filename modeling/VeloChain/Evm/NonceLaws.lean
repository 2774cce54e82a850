import VeloChain.Evm.Transfers

/-! What the interpreter does with nonces.
A rejected transaction changes no account, an accepted one had the nonce of its caller and
raises it by one, and no nonce ever goes down.
-/

namespace VeloChain.Revm

/-- The nonce rules of the interpreter, where accounts it has no entry for are empty. -/
structure NonceLaws (revm : Revm) : Prop where
  keeps
    : ∀ chainId env db, ∀ address ∈ db.accounts,
        address ∈ (revm.transactCommit chainId env db).2.accounts
  nonce_le
    : ∀ chainId env db address,
        (db.infoOf address).nonce
          ≤ ((revm.transactCommit chainId env db).2.infoOf address).nonce
  rejected_info
    : ∀ chainId env db e, (revm.transactCommit chainId env db).1 = .error e →
        ∀ address,
          ((revm.transactCommit chainId env db).2.infoOf address).balance
              = (db.infoOf address).balance
            ∧ ((revm.transactCommit chainId env db).2.infoOf address).nonce
              = (db.infoOf address).nonce
  rejected_entries
    : ∀ chainId env db e, (revm.transactCommit chainId env db).1 = .error e →
        ∀ address ∈ (revm.transactCommit chainId env db).2.accounts,
          address ∈ db.accounts ∨ address = env.caller
  accepted
    : ∀ chainId env db result, (revm.transactCommit chainId env db).1 = .ok result →
        (∀ nonce, env.nonce = some nonce → (db.infoOf env.caller).nonce = nonce)
        ∧ env.caller ∈ (revm.transactCommit chainId env db).2.accounts
        ∧ ((revm.transactCommit chainId env db).2.infoOf env.caller).nonce
          = (db.infoOf env.caller).nonce + 1

section Transfers

variable (env : TxEnv) (db : CacheDb)

theorem nonce_infoOf_debit (address : Address)
    : ((debit env db).infoOf address).nonce
      = if address = env.caller then (db.infoOf address).nonce + 1
        else (db.infoOf address).nonce := by
  unfold debit
  simp only [CacheDb.infoOf_insertAccountInfo, Function.update_apply]
  split
  next same => rw [same]
  next => rfl

theorem nonce_infoOf_credit (address : Address)
    : ((credit env db).infoOf address).nonce = (db.infoOf address).nonce := by
  unfold credit
  cases env.transactTo with
  | none => rfl
  | some recipient =>
      simp only [CacheDb.infoOf_insertAccountInfo, Function.update_apply]
      split
      next same => rw [same]
      next => rfl

theorem mem_credit_debit {address : Address}
    : address ∈ (credit env (debit env db)).accounts
      ↔ env.transactTo = some address ∨ address = env.caller ∨ address ∈ db.accounts := by
  unfold credit debit
  cases env.transactTo with
  | none => simp only [CacheDb.mem_insertAccountInfo, reduceCtorEq, false_or]
  | some recipient =>
      simp only [CacheDb.mem_insertAccountInfo, Option.some.injEq, eq_comm]

/-- A transfer is rejected without a trace, or its checks hold and it moves value. -/
theorem transfers_cases (chainId : UInt64)
    : (∃ e, transfers.transactCommit chainId env db = (.error e, db))
      ∨ env.nonce = some (db.infoOf env.caller).nonce
        ∧ ∃ result,
            transfers.transactCommit chainId env db = (.ok result, credit env (debit env db)) := by
  unfold transfers rejection
  simp only
  split
  next reason _ => exact Or.inl ⟨reason, rfl⟩
  next passed =>
    refine Or.inr ⟨?_, _, rfl⟩
    by_contra counted
    split at passed
    next => cases passed
    next => cases passed

end Transfers

theorem transfers_nonceLaws : NonceLaws transfers := by
  constructor
  · intro chainId env db address member
    rcases transfers_cases env db chainId with ⟨e, call⟩ | ⟨_, result, call⟩
    · rwa [call]
    · rw [call]
      exact (mem_credit_debit env db).mpr (Or.inr (Or.inr member))
  · intro chainId env db address
    rcases transfers_cases env db chainId with ⟨e, call⟩ | ⟨_, result, call⟩
    · rw [call]
    · simp only [call, nonce_infoOf_credit, nonce_infoOf_debit]
      split <;> omega
  · intro chainId env db e rejected address
    rcases transfers_cases env db chainId with ⟨e', call⟩ | ⟨_, result, call⟩
    · rw [call]
      exact ⟨rfl, rfl⟩
    · simp [call] at rejected
  · intro chainId env db e rejected address member
    rcases transfers_cases env db chainId with ⟨e', call⟩ | ⟨_, result, call⟩
    · rw [call] at member
      exact Or.inl member
    · simp [call] at rejected
  · intro chainId env db result accepted
    rcases transfers_cases env db chainId with ⟨e', call⟩ | ⟨counted, result', call⟩
    · simp [call] at accepted
    · rw [call]
      refine ⟨?_, (mem_credit_debit env db).mpr (Or.inr (Or.inl rfl)), ?_⟩
      · intro nonce same
        exact Option.some.inj (counted.symm.trans same)
      · simp only [nonce_infoOf_credit, nonce_infoOf_debit, if_true]

end VeloChain.Revm
