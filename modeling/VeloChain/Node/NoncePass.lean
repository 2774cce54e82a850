import VeloChain.Node.Ledger

/-! Passes over transactions that are guarded by the nonces of their senders.
A turn of such a pass is refused, stale or counted, and only a counted turn has an effect.
Since no turn lowers a nonce, a pass that has counted a transaction cannot end where it began.
-/

namespace VeloChain

namespace AccountView

variable {ε : Type}

/-- No nonce that is read before is lower, or no longer read, after. -/
def NonceLe (before after : AccountView ε) : Prop :=
  ∀ address n, before.nonce address = .ok n → ∃ m, after.nonce address = .ok m ∧ n ≤ m

/-- Some nonce is higher after than before. -/
def Raised (before after : AccountView ε) : Prop :=
  ∃ address n m, before.nonce address = .ok n ∧ after.nonce address = .ok m ∧ n < m

/-- The same addresses can be read. -/
def SameReadable (before after : AccountView ε) : Prop :=
  ∀ address, after.ReadableAt address ↔ before.ReadableAt address

theorem NonceLe.refl (view : AccountView ε) : NonceLe view view :=
  fun _ n read => ⟨n, read, Nat.le_refl n⟩

theorem NonceLe.trans {before middle after : AccountView ε} (first : NonceLe before middle)
    (second : NonceLe middle after)
    : NonceLe before after := by
  intro address n read
  obtain ⟨m, readMiddle, le⟩ := first address n read
  obtain ⟨k, readAfter, le'⟩ := second address m readMiddle
  exact ⟨k, readAfter, Nat.le_trans le le'⟩

theorem NonceLe.nonceAt_le {before after : AccountView ε} (le : NonceLe before after)
    (address : Address)
    : before.nonceAt address ≤ after.nonceAt address := by
  cases read : before.nonce address with
  | error e => simp [nonceAt, read, Except.toOption]
  | ok n =>
      obtain ⟨m, readAfter, upper⟩ := le address n read
      rw [nonceAt_eq read, nonceAt_eq readAfter]
      exact upper

theorem Raised.trans_nonceLe {before middle after : AccountView ε}
    (raised : Raised before middle) (later : NonceLe middle after)
    : Raised before after := by
  obtain ⟨address, n, m, read, readMiddle, lt⟩ := raised
  obtain ⟨k, readAfter, le⟩ := later address m readMiddle
  exact ⟨address, n, k, read, readAfter, Nat.lt_of_lt_of_le lt le⟩

/-- A view in which a nonce has gone up is another one. -/
theorem Raised.ne {before after : AccountView ε} (raised : Raised before after)
    : after ≠ before := by
  intro same
  obtain ⟨address, n, m, read, readAfter, lt⟩ := raised
  rw [same, read] at readAfter
  exact absurd (Except.ok.inj readAfter) (Nat.ne_of_lt lt)

theorem SameReadable.trans {before middle after : AccountView ε}
    (first : SameReadable before middle) (second : SameReadable middle after)
    : SameReadable before after :=
  fun address => (second address).trans (first address)

end AccountView

open AccountView

variable {crypto : Crypto}

/-- The sender of the transaction can be recovered and its account can be read. -/
def SenderReadable (crypto : Crypto) (view : AccountView StateError) (tx : SignedTransaction)
    : Prop :=
  ∃ sender, tx.sender crypto = .ok sender ∧ view.ReadableAt sender

/-- The transaction has another nonce than its sender. -/
def Stale (crypto : Crypto) (view : AccountView StateError) (tx : SignedTransaction) : Prop :=
  ∃ sender n,
    tx.sender crypto = .ok sender
    ∧ view.nonce sender = .ok n
    ∧ tx.transaction.nonce ≠ n

/-- The transaction has the nonce of its sender. -/
structure Due (crypto : Crypto) (view : AccountView StateError) (tx : SignedTransaction)
    (sender : Address) : Prop where
  recovered : tx.sender crypto = .ok sender
  nonce : view.nonce sender = .ok tx.transaction.nonce

/-- A transaction is refused, stale, or due. -/
theorem turn_cases (crypto : Crypto) (view : AccountView StateError) (tx : SignedTransaction)
    : ¬ SenderReadable crypto view tx
      ∨ Stale crypto view tx
      ∨ ∃ sender, Due crypto view tx sender := by
  by_cases readable : SenderReadable crypto view tx
  · obtain ⟨sender, recovered, readableAt⟩ := readable
    obtain ⟨n, read⟩ := readableAt_iff_nonce.mp readableAt
    by_cases same : tx.transaction.nonce = n
    · exact Or.inr (Or.inr ⟨sender, recovered, same ▸ read⟩)
    · exact Or.inr (Or.inl ⟨sender, n, recovered, read, same⟩)
  · exact Or.inl readable

theorem Due.senderReadable {view : AccountView StateError} {tx : SignedTransaction}
    {sender : Address} (due : Due crypto view tx sender)
    : SenderReadable crypto view tx :=
  ⟨sender, due.recovered, readableAt_iff_nonce.mpr ⟨_, due.nonce⟩⟩

theorem Stale.senderReadable {view : AccountView StateError} {tx : SignedTransaction}
    (stale : Stale crypto view tx)
    : SenderReadable crypto view tx := by
  obtain ⟨sender, n, recovered, read, _⟩ := stale
  exact ⟨sender, recovered, readableAt_iff_nonce.mpr ⟨n, read⟩⟩

theorem Due.not_stale {view : AccountView StateError} {tx : SignedTransaction}
    {sender : Address} (due : Due crypto view tx sender)
    : ¬ Stale crypto view tx := by
  rintro ⟨other, n, recovered, read, ne⟩
  obtain rfl := Except.ok.inj (due.recovered.symm.trans recovered)
  exact ne (Except.ok.inj (due.nonce.symm.trans read))

theorem senderReadable_congr {before after : AccountView StateError}
    (same : SameReadable before after) {tx : SignedTransaction}
    : SenderReadable crypto after tx ↔ SenderReadable crypto before tx := by
  unfold SenderReadable
  simp only [same _]

/-- The first transaction of the list that is not stale is refused. -/
def StopsStale (crypto : Crypto) (view : AccountView StateError) : List SignedTransaction → Prop
  | [] => False
  | tx :: rest =>
      ¬ SenderReadable crypto view tx
      ∨ Stale crypto view tx ∧ StopsStale crypto view rest

/-- Where one list is stale as a whole, the next one decides. -/
theorem stopsStale_append {view : AccountView StateError} {left right : List SignedTransaction}
    : StopsStale crypto view (left ++ right)
      ↔ StopsStale crypto view left
        ∨ (∀ tx ∈ left, Stale crypto view tx) ∧ StopsStale crypto view right := by
  induction left with
  | nil => simp [StopsStale]
  | cons tx rest ih =>
      simp only [List.cons_append, StopsStale, ih, List.forall_mem_cons]
      tauto

namespace Ledger

variable {F : Type} {host : Host F}
  {effect : Address → SignedTransaction → Ledger → Ledger}

theorem guarded_of_refused (effect : Address → SignedTransaction → Ledger → Ledger)
    {ledger : Ledger} {tx : SignedTransaction}
    (refused : ¬ SenderReadable host.crypto ledger.view tx)
    : ∃ e, guarded host effect tx ledger = (.error e, ledger) := by
  unfold guarded senderNonce
  cases recovered : tx.sender host.crypto with
  | error e => exact ⟨_, rfl⟩
  | ok sender =>
      cases read : ledger.view.nonce sender with
      | error e =>
          simp only [read]
          exact ⟨_, rfl⟩
      | ok n => exact absurd ⟨sender, recovered, readableAt_iff_nonce.mpr ⟨n, read⟩⟩ refused

theorem guarded_of_stale {ledger : Ledger} {tx : SignedTransaction}
    (stale : Stale host.crypto ledger.view tx)
    : guarded host effect tx ledger = (.ok (), ledger) := by
  obtain ⟨sender, n, recovered, read, ne⟩ := stale
  simp only [guarded, senderNonce, recovered, read, if_neg ne]

theorem guarded_of_due {ledger : Ledger} {tx : SignedTransaction} {sender : Address}
    (due : Due host.crypto ledger.view tx sender)
    : guarded host effect tx ledger = (.ok (), effect sender tx ledger) := by
  simp only [guarded, senderNonce, due.recovered, due.nonce, if_true]

/-- The effect counts a transaction at its sender and nowhere else. -/
structure CountsNonce (effect : Address → SignedTransaction → Ledger → Ledger) : Prop where
  self
    : ∀ sender tx ledger n, ledger.view.nonce sender = .ok n
        → (effect sender tx ledger).view.nonce sender = .ok (n + 1)
  other
    : ∀ sender tx ledger address, address ≠ sender
        → (effect sender tx ledger).view.nonce address = ledger.view.nonce address

theorem settle_countsNonce (sender : Address) (tx : Transaction)
    (result : Except String ExecutionResult) (view : AccountView StateError)
    : (∀ n, view.nonce sender = .ok n
          → (settle sender tx result view).nonce sender = .ok (n + 1))
      ∧ ∀ address, address ≠ sender
          → (settle sender tx result view).nonce address = view.nonce address := by
  unfold settle
  split
  next =>
    refine ⟨fun n read => nonce_bumpNonce ((nonce_pay sender sender _ view).trans read), ?_⟩
    intro address ne
    rw [nonce_modify_of_ne ne, nonce_pay]
  next =>
    exact ⟨fun n read => nonce_bumpNonce read, fun address ne => nonce_modify_of_ne ne _ view⟩

theorem transact_countsNonce (host : Host F) (chainId : UInt64)
    : CountsNonce (fun sender tx => transact host chainId sender tx.transaction) := by
  constructor
  · intro sender tx ledger
    exact (settle_countsNonce sender tx.transaction _ ledger.view).1
  · intro sender tx ledger
    exact (settle_countsNonce sender tx.transaction _ ledger.view).2

theorem countAction_countsNonce : CountsNonce (fun sender _ => countAction sender) := by
  constructor
  · intro sender tx ledger n read
    exact (nonce_pay sender sender _ _).trans (nonce_bumpNonce read)
  · intro sender tx ledger address ne
    exact (nonce_pay sender address _ _).trans (nonce_modify_of_ne ne _ ledger.view)

/-- What a turn does to the nonces, whether it is refused, stale or counted. -/
theorem CountsNonce.guarded (counts : CountsNonce effect) (host : Host F)
    (tx : SignedTransaction) (ledger : Ledger)
    : NonceLe ledger.view (guarded host effect tx ledger).2.view
      ∧ SameReadable ledger.view (Ledger.guarded host effect tx ledger).2.view := by
  rcases turn_cases host.crypto ledger.view tx with refused | stale | ⟨sender, due⟩
  · obtain ⟨e, turn⟩ := guarded_of_refused effect refused
    rw [turn]
    exact ⟨.refl _, fun _ => Iff.rfl⟩
  · rw [guarded_of_stale stale]
    exact ⟨.refl _, fun _ => Iff.rfl⟩
  · rw [guarded_of_due due]
    have counted := counts.self sender tx ledger _ due.nonce
    have others := counts.other sender tx ledger
    constructor
    · intro address n read
      by_cases same : address = sender
      · subst same
        obtain rfl := Except.ok.inj (due.nonce.symm.trans read)
        exact ⟨_, counted, Nat.le_succ _⟩
      · exact ⟨n, (others address same).trans read, Nat.le_refl n⟩
    · intro address
      rw [readableAt_iff_nonce, readableAt_iff_nonce]
      by_cases same : address = sender
      · subst same
        exact ⟨fun _ => ⟨_, due.nonce⟩, fun _ => ⟨_, counted⟩⟩
      · simp only [others address same]

section Runs

variable {txs : List SignedTransaction}

/-- A pass lowers no nonce and keeps what can be read. -/
theorem CountsNonce.run (counts : CountsNonce effect) (host : Host F)
    (txs : List SignedTransaction) (ledger : Ledger)
    : NonceLe ledger.view (Loop.run (Ledger.guarded host effect) txs ledger).2.view
      ∧ SameReadable ledger.view
          (Loop.run (Ledger.guarded host effect) txs ledger).2.view := by
  refine Loop.run_invariant
    (fun (after : Ledger) =>
      NonceLe ledger.view after.view ∧ SameReadable ledger.view after.view)
    ?_ ⟨.refl _, fun _ => Iff.rfl⟩
  intro tx _ middle held
  obtain ⟨le, readable⟩ := counts.guarded host tx middle
  exact ⟨held.1.trans le, held.2.trans readable⟩

/-- A pass succeeds exactly when every sender can be recovered and read. -/
theorem CountsNonce.run_ok_iff (counts : CountsNonce effect) (ledger : Ledger)
    : (Loop.run (Ledger.guarded host effect) txs ledger).1 = .ok ()
      ↔ ∀ tx ∈ txs, SenderReadable host.crypto ledger.view tx := by
  refine Loop.run_ok_iff (fun (after : Ledger) => SameReadable ledger.view after.view)
    ?_ ?_ (fun _ => Iff.rfl)
  · intro tx _ middle same
    rw [← senderReadable_congr same]
    rcases turn_cases host.crypto middle.view tx with refused | stale | ⟨sender, due⟩
    · obtain ⟨e, turn⟩ := guarded_of_refused effect refused
      simp only [turn, refused, reduceCtorEq]
    · simp only [guarded_of_stale stale, stale.senderReadable]
    · simp only [guarded_of_due due, due.senderReadable]
  · intro tx _ middle same
    exact same.trans (counts.guarded host tx middle).2

theorem run_guarded_of_stopsStale (effect : Address → SignedTransaction → Ledger → Ledger)
    (ledger : Ledger) (stops : StopsStale host.crypto ledger.view txs)
    : ∃ e, Loop.run (Ledger.guarded host effect) txs ledger = (.error e, ledger) := by
  induction txs with
  | nil => exact stops.elim
  | cons tx rest ih =>
      cases stops with
      | inl refused =>
          obtain ⟨e, turn⟩ := guarded_of_refused effect refused
          exact ⟨e, Loop.run_cons_error turn⟩
      | inr later =>
          rw [Loop.run_cons_ok (guarded_of_stale later.1)]
          exact ih later.2

theorem run_guarded_of_stale (effect : Address → SignedTransaction → Ledger → Ledger)
    (ledger : Ledger) (stale : ∀ tx ∈ txs, Stale host.crypto ledger.view tx)
    : Loop.run (Ledger.guarded host effect) txs ledger = (.ok (), ledger) := by
  induction txs with
  | nil => rfl
  | cons tx rest ih =>
      obtain ⟨first, later⟩ := List.forall_mem_cons.mp stale
      rw [Loop.run_cons_ok (guarded_of_stale first)]
      exact ih later

/-- A pass that neither stops before counting nor finds only stale transactions raises a
nonce: by induction on the list, the first transaction that is not stale is due.
-/
theorem CountsNonce.run_raises (counts : CountsNonce effect) (ledger : Ledger)
    (goesOn : ¬ StopsStale host.crypto ledger.view txs)
    (notStale : ¬ ∀ tx ∈ txs, Stale host.crypto ledger.view tx)
    : Raised ledger.view (Loop.run (Ledger.guarded host effect) txs ledger).2.view := by
  induction txs with
  | nil => simp at notStale
  | cons tx rest ih =>
      rcases turn_cases host.crypto ledger.view tx with refused | stale | ⟨sender, due⟩
      · exact absurd (Or.inl refused) goesOn
      · rw [Loop.run_cons_ok (guarded_of_stale stale)]
        apply ih (fun stops => goesOn (Or.inr ⟨stale, stops⟩))
        intro all
        exact notStale (List.forall_mem_cons.mpr ⟨stale, all⟩)
      · rw [Loop.run_cons_ok (guarded_of_due due)]
        have counted
            : Raised ledger.view (effect sender tx ledger).view :=
          ⟨sender, _, _, due.nonce, counts.self sender tx ledger _ due.nonce,
            Nat.lt_succ_self _⟩
        exact counted.trans_nonceLe (counts.run host rest _).1

end Runs

end Ledger

end VeloChain
