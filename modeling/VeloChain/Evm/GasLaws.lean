import VeloChain.Evm.NonceLaws

/-! What the interpreter does with the price of gas.
The caller of an accepted transaction pays for the gas it has used, beside what the execution
itself moves.
-/

namespace VeloChain

/-- The gas of a committed transaction. -/
def ExecutionResult.gasUsed : ExecutionResult → UInt64
  | .success gasUsed _ _ => gasUsed
  | .revert gasUsed _ => gasUsed
  | .halt _ gasUsed => gasUsed

/-- An outcome reports the gas of its result. -/
theorem EvmExecutor.outcome_gasUsed {result : ExecutionResult} {outcome : ExecutionOutcome}
    (reported : EvmExecutor.outcome result = .ok outcome)
    : outcome.gasUsed = result.gasUsed := by
  cases result with
  | success gasUsed output logs =>
      cases output <;>
        simp only [EvmExecutor.outcome, Except.ok.injEq] at reported <;>
        rw [← reported, ExecutionResult.gasUsed]
  | revert gasUsed output =>
      simp only [EvmExecutor.outcome, Except.ok.injEq] at reported
      rw [← reported, ExecutionResult.gasUsed]
  | halt reason gasUsed => simp [EvmExecutor.outcome] at reported

namespace Revm

/-- The gas rules of the interpreter: an accepted transaction uses gas, and its caller pays the
price of the environment for it. `moved` is what the execution itself moves to the caller or
away from it.
-/
structure ChargesGas (revm : Revm) (moved : UInt64 → TxEnv → CacheDb → Int) : Prop where
  uses
    : ∀ chainId env db result, (revm.transactCommit chainId env db).1 = .ok result →
        0 < result.gasUsed.toNat
  pays
    : ∀ chainId env db result, (revm.transactCommit chainId env db).1 = .ok result →
        (((revm.transactCommit chainId env db).2.infoOf env.caller).balance.toNat : Int)
          = (db.infoOf env.caller).balance.toNat + moved chainId env db
            - result.gasUsed.toNat * env.gasPrice.toNat

/-- A transfer moves its value away from the caller, unless that is the recipient. -/
def valueMoved (_ : UInt64) (env : TxEnv) (_ : CacheDb) : Int :=
  if env.transactTo = some env.caller then 0 else - (env.value.toNat : Int)

section Transfers

variable {chainId : UInt64} {env : TxEnv} {db : CacheDb}

/-- An accepted transfer is covered by the balance of its caller, and uses the gas of a transfer. -/
theorem transfers_accepted {result : ExecutionResult}
    (ok : (transfers.transactCommit chainId env db).1 = .ok result)
    : result.gasUsed = transferGas
      ∧ transferCost env ≤ (db.infoOf env.caller).balance.toNat
      ∧ (transfers.transactCommit chainId env db).2 = credit env (debit env db) := by
  unfold transfers at ok ⊢
  simp only at ok ⊢
  cases rejected : rejection chainId env db with
  | some reason => simp [rejected] at ok
  | none =>
      simp only [rejected, Except.ok.injEq] at ok
      refine ⟨by rw [← ok]; rfl, ?_, rfl⟩
      unfold rejection at rejected
      split at rejected
      next => cases rejected
      next =>
        split at rejected
        next => cases rejected
        next =>
          split at rejected
          next => cases rejected
          next covered => exact Nat.not_lt.mp covered

theorem balance_debit (covered : transferCost env ≤ (db.infoOf env.caller).balance.toNat)
    : ((debit env db).infoOf env.caller).balance.toNat
      = (db.infoOf env.caller).balance.toNat - transferCost env := by
  have small : transferCost env < 2 ^ 256 :=
    Nat.lt_of_le_of_lt covered (db.infoOf env.caller).balance.isLt
  unfold debit
  simp only [CacheDb.infoOf_insertAccountInfo, Function.update_self]
  rw [BitVec.toNat_sub_of_le, BitVec.toNat_ofNat, Nat.mod_eq_of_lt small]
  rw [BitVec.le_def, BitVec.toNat_ofNat, Nat.mod_eq_of_lt small]
  exact covered

theorem balance_credit_caller (own : env.transactTo = some env.caller)
    : ((credit env db).infoOf env.caller).balance
      = (db.infoOf env.caller).balance + env.value := by
  unfold credit
  simp only [own, CacheDb.infoOf_insertAccountInfo, Function.update_self]

theorem balance_credit_of_ne (other : env.transactTo ≠ some env.caller)
    : ((credit env db).infoOf env.caller).balance = (db.infoOf env.caller).balance := by
  unfold credit
  cases called : env.transactTo with
  | none => rfl
  | some recipient =>
      have apart : env.caller ≠ recipient := fun same => other (same ▸ called)
      simp only [CacheDb.infoOf_insertAccountInfo, Function.update_of_ne apart]

end Transfers

theorem transfers_chargesGas : ChargesGas transfers valueMoved := by
  constructor
  · intro chainId env db result ok
    rw [(transfers_accepted ok).1]
    decide
  · intro chainId env db result ok
    obtain ⟨gas, covered, after⟩ := transfers_accepted ok
    have debited := balance_debit covered
    have cost : transferCost env = env.value.toNat + transferGas.toNat * env.gasPrice.toNat := rfl
    rw [after, gas, valueMoved]
    by_cases own : env.transactTo = some env.caller
    · have fits
          : ((debit env db).infoOf env.caller).balance.toNat + env.value.toNat < 2 ^ 256 := by
        have := (db.infoOf env.caller).balance.isLt
        omega
      rw [if_pos own, balance_credit_caller own, BitVec.toNat_add_of_lt fits, debited]
      push_cast [Nat.cast_sub covered, cost]
      omega
    · rw [if_neg own, balance_credit_of_ne own, debited]
      push_cast [Nat.cast_sub covered, cost]
      omega

end Revm

end VeloChain
