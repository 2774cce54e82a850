import Mathlib.Logic.Function.Basic
import VeloChain.Primitives.Types

/-! Account states as their readers see them.
A view gives the result of reading each address. The account operations are partial updates
of a view at one address; what they do to other addresses and to nonces is stated here once.
-/

namespace VeloChain

/-- What a reader sees at each address: an account, no account, or the error of the read. -/
abbrev AccountView (ε : Type) := Address → Except ε (Option Account)

namespace AccountView

variable {ε : Type}

/-- The account a writer starts from: the stored one, else a default one. -/
def accountOrDefault (view : AccountView ε) (address : Address) : Except ε Account :=
  (view address).map (fun found => found.getD .default)

/-- The nonce of an address, zero without an account. -/
def nonce (view : AccountView ε) (address : Address) : Except ε Nat :=
  (view.accountOrDefault address).map Account.nonce

/-- The nonce of an address, zero where it cannot be read. -/
def nonceAt (view : AccountView ε) (address : Address) : Nat :=
  ((view.nonce address).toOption).getD 0

/-- Replace the account at `address` by `f` of it. Nothing happens where the read fails or
`f` gives no account.
-/
def modify (address : Address) (f : Account → Option Account) (view : AccountView ε)
    : AccountView ε :=
  match view.accountOrDefault address with
  | .error _ => view
  | .ok account =>
      match f account with
      | none => view
      | some written => Function.update view address (.ok (some written))

/-- Every read succeeds. -/
def Readable (view : AccountView ε) : Prop :=
  ∀ address, ∃ found, view address = .ok found

/-- The read at one address succeeds. -/
def ReadableAt (view : AccountView ε) (address : Address) : Prop :=
  ∃ found, view address = .ok found

theorem nonce_eq {view : AccountView ε} {address : Address} {account : Account}
    (h : view.accountOrDefault address = .ok account)
    : view.nonce address = .ok account.nonce := by
  simp only [nonce, h, Except.map]

theorem accountOrDefault_of_nonce {view : AccountView ε} {address : Address} {n : Nat}
    (h : view.nonce address = .ok n)
    : ∃ account, view.accountOrDefault address = .ok account ∧ account.nonce = n := by
  unfold nonce at h
  cases read : view.accountOrDefault address with
  | error e => simp [read, Except.map] at h
  | ok account => exact ⟨account, rfl, by simpa [read, Except.map] using h⟩

theorem readableAt_iff {view : AccountView ε} {address : Address}
    : view.ReadableAt address ↔ ∃ account, view.accountOrDefault address = .ok account := by
  unfold ReadableAt accountOrDefault
  cases view address with
  | error e => simp [Except.map]
  | ok found => simp [Except.map]

theorem readableAt_iff_nonce {view : AccountView ε} {address : Address}
    : view.ReadableAt address ↔ ∃ n, view.nonce address = .ok n := by
  rw [readableAt_iff]
  constructor
  · rintro ⟨account, read⟩
    exact ⟨account.nonce, nonce_eq read⟩
  · rintro ⟨n, read⟩
    obtain ⟨account, found, _⟩ := accountOrDefault_of_nonce read
    exact ⟨account, found⟩

theorem modify_of_some {view : AccountView ε} {address : Address} {account written : Account}
    (h : view.accountOrDefault address = .ok account) {f : Account → Option Account}
    (result : f account = some written)
    : view.modify address f = Function.update view address (.ok (some written)) := by
  simp only [modify, h, result]

theorem modify_of_none {view : AccountView ε} {address : Address} {account : Account}
    (h : view.accountOrDefault address = .ok account) {f : Account → Option Account}
    (result : f account = none)
    : view.modify address f = view := by
  simp only [modify, h, result]

theorem modify_of_error {view : AccountView ε} {address : Address} {e : ε}
    (h : view.accountOrDefault address = .error e) (f : Account → Option Account)
    : view.modify address f = view := by
  simp only [modify, h]

/-- An update is seen at its own address only. -/
theorem modify_of_ne {address other : Address} (h : other ≠ address)
    (f : Account → Option Account) (view : AccountView ε)
    : view.modify address f other = view other := by
  unfold modify
  cases view.accountOrDefault address with
  | error e => rfl
  | ok account =>
      cases result : f account with
      | none => simp only [result]
      | some written => simp only [result, Function.update_of_ne h]

theorem accountOrDefault_modify_of_ne {address other : Address} (h : other ≠ address)
    (f : Account → Option Account) (view : AccountView ε)
    : (view.modify address f).accountOrDefault other = view.accountOrDefault other := by
  simp only [accountOrDefault, modify_of_ne h]

/-- The account read back after an update is the updated one. -/
theorem accountOrDefault_modify_self (address : Address) (f : Account → Option Account)
    (view : AccountView ε)
    : (view.modify address f).accountOrDefault address
      = (view.accountOrDefault address).map (fun account => (f account).getD account) := by
  cases read : view.accountOrDefault address with
  | error e => simp only [modify_of_error read, read, Except.map]
  | ok account =>
      cases result : f account with
      | none => simp only [modify_of_none read result, read, Except.map, result, Option.getD_none]
      | some written =>
          simp only [modify_of_some read result, accountOrDefault, Function.update_self,
            Except.map, result, Option.getD_some]

/-- Updates neither repair nor break the read of any address. -/
@[simp]
theorem readableAt_modify {address other : Address} {f : Account → Option Account}
    {view : AccountView ε}
    : (view.modify address f).ReadableAt other ↔ view.ReadableAt other := by
  rw [readableAt_iff, readableAt_iff]
  by_cases same : other = address
  · subst same
    rw [accountOrDefault_modify_self]
    cases view.accountOrDefault other <;> simp [Except.map]
  · rw [accountOrDefault_modify_of_ne same]

theorem nonce_modify_of_ne {address other : Address} (h : other ≠ address)
    (f : Account → Option Account) (view : AccountView ε)
    : (view.modify address f).nonce other = view.nonce other := by
  simp only [nonce, accountOrDefault_modify_of_ne h]

theorem nonce_modify_self (address : Address) (f : Account → Option Account)
    (view : AccountView ε)
    : (view.modify address f).nonce address
      = (view.accountOrDefault address).map
          (fun account => ((f account).getD account).nonce) := by
  rw [nonce, accountOrDefault_modify_self]
  cases view.accountOrDefault address <;> rfl

end AccountView

namespace Account

/-- The account after one more transaction of its owner. -/
def bumpNonce (account : Account) : Option Account :=
  some { account with nonce := account.nonce + 1 }

/-- The account after paying `amount`, if it can. -/
def pay (amount : U256) (account : Account) : Option Account :=
  if account.balance < amount then none
  else some { account with balance := account.balance - amount }

end Account

namespace AccountView

variable {ε : Type}

/-- A nonce that is read goes up by one. -/
theorem nonce_bumpNonce {view : AccountView ε} {address : Address} {n : Nat}
    (h : view.nonce address = .ok n)
    : (view.modify address Account.bumpNonce).nonce address = .ok (n + 1) := by
  obtain ⟨account, read, rfl⟩ := accountOrDefault_of_nonce h
  simp only [nonce_modify_self, read, Except.map, Account.bumpNonce, Option.getD_some]

/-- Paying changes no nonce. -/
@[simp]
theorem nonce_pay (address other : Address) (amount : U256) (view : AccountView ε)
    : (view.modify address (Account.pay amount)).nonce other = view.nonce other := by
  by_cases same : other = address
  · subst same
    rw [nonce_modify_self, nonce]
    cases view.accountOrDefault other with
    | error e => rfl
    | ok account =>
        simp only [Except.map, Account.pay]
        split <;> rfl
  · rw [nonce_modify_of_ne same]

theorem nonceAt_eq {view : AccountView ε} {address : Address} {n : Nat}
    (h : view.nonce address = .ok n)
    : view.nonceAt address = n := by
  simp only [nonceAt, h, Except.toOption, Option.getD_some]

theorem nonceAt_congr {left right : AccountView ε} {address : Address}
    (h : left.accountOrDefault address = right.accountOrDefault address)
    : left.nonceAt address = right.nonceAt address := by
  simp only [nonceAt, nonce, h]

section Code

/-- Code and storage are the same, and so is what can be read. -/
def SameCode (before after : AccountView ε) : Prop :=
  ∀ address,
    (after.accountOrDefault address).map (fun account => (account.codeHash, account.storageRoot))
      = (before.accountOrDefault address).map
          (fun account => (account.codeHash, account.storageRoot))

theorem SameCode.refl (view : AccountView ε) : SameCode view view := fun _ => rfl

theorem SameCode.trans {before middle after : AccountView ε} (first : SameCode before middle)
    (second : SameCode middle after)
    : SameCode before after :=
  fun address => (second address).trans (first address)

/-- An update that writes neither code nor storage keeps both. -/
theorem sameCode_modify {f : Account → Option Account}
    (keeps
      : ∀ account written, f account = some written →
          written.codeHash = account.codeHash ∧ written.storageRoot = account.storageRoot)
    (address : Address) (view : AccountView ε)
    : SameCode view (view.modify address f) := by
  intro other
  by_cases same : other = address
  · subst same
    rw [accountOrDefault_modify_self]
    cases view.accountOrDefault other with
    | error e => rfl
    | ok account =>
        cases result : f account with
        | none => simp only [Except.map, result, Option.getD_none]
        | some written =>
            obtain ⟨code, storage⟩ := keeps account written result
            simp only [Except.map, result, Option.getD_some, code, storage]
  · rw [accountOrDefault_modify_of_ne same]

theorem sameCode_bumpNonce (address : Address) (view : AccountView ε)
    : SameCode view (view.modify address Account.bumpNonce) := by
  refine sameCode_modify ?_ address view
  intro account written bumped
  obtain rfl := Option.some.inj bumped
  exact ⟨rfl, rfl⟩

theorem sameCode_pay (address : Address) (amount : U256) (view : AccountView ε)
    : SameCode view (view.modify address (Account.pay amount)) := by
  refine sameCode_modify ?_ address view
  intro account written paid
  unfold Account.pay at paid
  split at paid
  next => cases paid
  next =>
    obtain rfl := Option.some.inj paid
    exact ⟨rfl, rfl⟩

end Code

end AccountView

end VeloChain
