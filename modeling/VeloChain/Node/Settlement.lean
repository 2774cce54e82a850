import VeloChain.Evm.NonceLaws
import VeloChain.Node.Passes

/-! What the EVM pass leaves behind once its database is flushed.
During the pass an account has two books: the entry in the EVM database and the bookkeeping of
the world state. The flush at the end keeps the entry where there is one. `settled` looks ahead
to that flush from any moment of the pass.
-/

namespace VeloChain

open AccountView

namespace Ledger

/-- The accounts as the final flush would leave them if the pass did nothing more: the EVM
entry over the account it was loaded from; the old account where the EVM gets its entry only
later; and the bookkeeping of the world state where it never gets one.
-/
def settled (start : AccountView StateError) (final : CacheDb) (ledger : Ledger)
    : AccountView StateError := fun address =>
  match ledger.db.accounts.lookup address with
  | some entry =>
      (start.accountOrDefault address).map (fun account =>
        some { account with balance := entry.info.balance, nonce := entry.info.nonce })
  | none => if address ∈ final.accounts then start address else ledger.view address

variable {F : Type} {host : Host F} {chainId : UInt64} {start : AccountView StateError}
  {final : CacheDb} {ledger after : Ledger} {evmTxs : List SignedTransaction}

section Lookup

variable {address : Address}

theorem settled_of_mem (start : AccountView StateError) (final : CacheDb)
    (member : address ∈ ledger.db.accounts)
    : (settled start final ledger).accountOrDefault address
      = (start.accountOrDefault address).map (fun account =>
          { account with
            balance := (ledger.db.infoOf address).balance
            nonce := (ledger.db.infoOf address).nonce }) := by
  obtain ⟨entry, found⟩ := Finmap.mem_iff.mp member
  unfold accountOrDefault
  simp only [settled, found, CacheDb.infoOf_of_some found]
  unfold accountOrDefault
  cases start address <;> rfl

theorem settled_of_later (start : AccountView StateError)
    (missing : address ∉ ledger.db.accounts) (later : address ∈ final.accounts)
    : settled start final ledger address = start address := by
  simp only [settled, Finmap.lookup_eq_none.mpr missing, later, if_true]

theorem settled_of_never (start : AccountView StateError)
    (missing : address ∉ ledger.db.accounts) (never : address ∉ final.accounts)
    : settled start final ledger address = ledger.view address := by
  simp only [settled, Finmap.lookup_eq_none.mpr missing, never, if_false]

end Lookup

/-- Before the first transaction, settling gives the accounts the block starts with. -/
theorem settled_start (evmTxs : List SignedTransaction) (view : AccountView StateError)
    (final : CacheDb)
    : (settled view final (.start host evmTxs view)).accountOrDefault
      = view.accountOrDefault := by
  funext address
  by_cases member : address ∈ (Ledger.start host evmTxs view).db.accounts
  · obtain ⟨entry, found⟩ := Finmap.mem_iff.mp member
    obtain ⟨_, account, read, rfl⟩ := (start_holds host evmTxs view address entry).mp found
    rw [settled_of_mem view final member, CacheDb.infoOf_of_some found]
    simp only [accountOrDefault, read, Except.map, Option.getD_some, entryOf]
  · unfold accountOrDefault
    by_cases later : address ∈ final.accounts
    · rw [settled_of_later view member later]
    · rw [settled_of_never view member later, start_view]

/-- After the last transaction, settling gives the flushed accounts. -/
theorem settled_end (sameCode : SameCode start ledger.view)
    : (settled start ledger.db ledger).accountOrDefault
      = ledger.flush.view.accountOrDefault := by
  funext address
  by_cases member : address ∈ ledger.db.accounts
  · obtain ⟨entry, found⟩ := Finmap.mem_iff.mp member
    have same := sameCode address
    rw [settled_of_mem start ledger.db member, CacheDb.infoOf_of_some found]
    rw [flush, accountOrDefault_flush found]
    cases was : start.accountOrDefault address with
    | error e =>
        cases is : ledger.view.accountOrDefault address with
        | error e' =>
            simp only [was, is, Except.map, Except.error.injEq] at same ⊢
            exact same.symm
        | ok account => simp [was, is, Except.map] at same
    | ok old =>
        cases is : ledger.view.accountOrDefault address with
        | error e => simp [was, is, Except.map] at same
        | ok account =>
            simp only [was, is, Except.map, Except.ok.injEq, Prod.mk.injEq] at same ⊢
            simp only [same.1, same.2]
  · have kept := flush_of_none (Finmap.lookup_eq_none.mpr member) ledger.view
    simp only [accountOrDefault, settled_of_never start member member, flush, kept]

/-- What holds throughout the EVM pass: code and storage are those of the start, and the
accounts the transactions name are in the EVM database if they existed.
-/
structure Underway (host : Host F) (evmTxs : List SignedTransaction)
    (start : AccountView StateError) (ledger : Ledger) : Prop where
  sameCode : SameCode start ledger.view
  loaded
    : ∀ address, (∃ tx ∈ evmTxs, Names host tx address) → address ∉ ledger.db.accounts
        → ∀ account, start address ≠ .ok (some account)

theorem underway_start (evmTxs : List SignedTransaction) (view : AccountView StateError)
    : Underway host evmTxs view (.start host evmTxs view) := by
  constructor
  · rw [start_view]
    exact .refl view
  · intro address named missing account read
    have found := (start_holds host evmTxs view address (entryOf account)).mpr
      ⟨named, account, read, rfl⟩
    exact missing (Finmap.mem_of_lookup_eq_some found)

/-- A turn leaves the ledger as it is, or runs a due transaction. -/
theorem evmTx_cases (host : Host F) (chainId : UInt64) (tx : SignedTransaction)
    (ledger : Ledger)
    : (ledger.evmTx host chainId tx).2 = ledger
      ∨ ∃ sender,
          Due host.crypto ledger.view tx sender
          ∧ (ledger.evmTx host chainId tx).2
            = ledger.transact host chainId sender tx.transaction := by
  rcases turn_cases host.crypto ledger.view tx with refused | stale | ⟨sender, due⟩
  · obtain ⟨e, turn⟩ := guarded_of_refused
      (fun sender tx => transact host chainId sender tx.transaction) refused
    exact Or.inl (congrArg Prod.snd turn)
  · exact Or.inl (congrArg Prod.snd (guarded_of_stale stale))
  · exact Or.inr ⟨sender, due, congrArg Prod.snd (guarded_of_due due)⟩

/-- A turn of the EVM pass keeps code and storage of every account. -/
theorem sameCode_evmTx (tx : SignedTransaction) (ledger : Ledger)
    : SameCode ledger.view (ledger.evmTx host chainId tx).2.view := by
  rcases evmTx_cases host chainId tx ledger with same | ⟨sender, _, same⟩
  · rw [same]
    exact .refl _
  · rw [same]
    unfold transact settle
    simp only
    split
    next => exact (sameCode_pay sender _ _).trans (sameCode_bumpNonce sender _)
    next => exact sameCode_bumpNonce sender _

/-- The EVM database keeps its entries in a turn. -/
theorem mem_evmTx (laws : host.revm.NonceLaws) (tx : SignedTransaction) (ledger : Ledger)
    : ∀ address ∈ ledger.db.accounts, address ∈ (ledger.evmTx host chainId tx).2.db.accounts := by
  intro address member
  rcases evmTx_cases host chainId tx ledger with same | ⟨sender, _, same⟩
  · rwa [same]
  · rw [same]
    exact laws.keeps _ _ _ address member

/-- The EVM database lowers no nonce in a turn. -/
theorem nonce_infoOf_evmTx (laws : host.revm.NonceLaws) (tx : SignedTransaction)
    (ledger : Ledger) (address : Address)
    : (ledger.db.infoOf address).nonce
      ≤ ((ledger.evmTx host chainId tx).2.db.infoOf address).nonce := by
  rcases evmTx_cases host chainId tx ledger with same | ⟨sender, _, same⟩
  · rw [same]
  · rw [same]
    exact laws.nonce_le _ _ _ address

theorem Underway.evmTx (underway : Underway host evmTxs start ledger)
    (laws : host.revm.NonceLaws) (tx : SignedTransaction)
    : Underway host evmTxs start (ledger.evmTx host chainId tx).2 := by
  constructor
  · exact underway.sameCode.trans (sameCode_evmTx tx ledger)
  · intro address named missing
    exact underway.loaded address named
      (fun member => missing (mem_evmTx laws tx ledger address member))

/-- The surroundings of one turn: it is underway, its entries stay to the end, and an address
that gets its entry in this turn had no nonce to lose.
-/
structure TurnScope (host : Host F) (evmTxs : List SignedTransaction)
    (start : AccountView StateError) (final : CacheDb) (ledger after : Ledger) : Prop where
  underway : Underway host evmTxs start ledger
  within : ∀ address ∈ after.db.accounts, address ∈ final.accounts
  fresh
    : ∀ address ∈ after.db.accounts, address ∉ ledger.db.accounts →
        start.nonce address = .ok 0

section Turn

variable {tx : SignedTransaction}

theorem nonceAt_settled_of_mem (readable : start.Readable) (final : CacheDb)
    {address : Address} (member : address ∈ ledger.db.accounts)
    : (settled start final ledger).nonceAt address = (ledger.db.infoOf address).nonce := by
  obtain ⟨account, read⟩ := readableAt_iff.mp (readable address)
  have settles := settled_of_mem start final member
  rw [read] at settles
  exact nonceAt_eq (nonce_eq settles)

/-- A turn lowers no settled nonce. -/
theorem TurnScope.nonceAt_le
    (scope : TurnScope host evmTxs start final ledger (ledger.evmTx host chainId tx).2)
    (laws : host.revm.NonceLaws) (readable : start.Readable) (address : Address)
    : (settled start final ledger).nonceAt address
      ≤ (settled start final (ledger.evmTx host chainId tx).2).nonceAt address := by
  by_cases before : address ∈ ledger.db.accounts
  · rw [nonceAt_settled_of_mem readable final before,
      nonceAt_settled_of_mem readable final (mem_evmTx laws tx ledger address before)]
    exact nonce_infoOf_evmTx laws tx ledger address
  · by_cases now : address ∈ (ledger.evmTx host chainId tx).2.db.accounts
    · have zero : (settled start final ledger).nonceAt address = 0 := by
        rw [nonceAt_congr (congrArg (Except.map _)
          (settled_of_later start before (scope.within address now)))]
        exact nonceAt_eq (scope.fresh address now before)
      rw [zero]
      exact Nat.zero_le _
    · by_cases later : address ∈ final.accounts
      · exact Nat.le_of_eq (nonceAt_congr (congrArg (Except.map _)
          ((settled_of_later start before later).trans
            (settled_of_later start now later).symm)))
      · rw [nonceAt_congr (congrArg (Except.map _) (settled_of_never start before later)),
          nonceAt_congr (congrArg (Except.map _) (settled_of_never start now later))]
        exact ((transact_countsNonce host chainId).guarded host tx ledger).1.nonceAt_le address

theorem settle_of_ne {sender address : Address} (other : address ≠ sender) (tx : Transaction)
    (result : Except String ExecutionResult) (view : AccountView StateError)
    : settle sender tx result view address = view address := by
  unfold settle
  cases result.toOption.bind (fun result => (EvmExecutor.outcome result).toOption) with
  | some outcome => exact (modify_of_ne other _ _).trans (modify_of_ne other _ view)
  | none => exact modify_of_ne other _ view

/-- A rejected transaction whose sender has an entry in the end settles without a trace: by
cases on when an address gets its entry, since the only new one can be the empty sender.
-/
theorem TurnScope.settled_of_rejected {sender : Address} {e : String}
    (scope : TurnScope host evmTxs start final ledger
      (ledger.transact host chainId sender tx.transaction))
    (laws : host.revm.NonceLaws) (readable : start.Readable) (member : tx ∈ evmTxs)
    (recovered : tx.sender host.crypto = .ok sender) (later : sender ∈ final.accounts)
    (rejected
      : (host.revm.transactCommit chainId (EvmExecutor.txEnv sender tx.transaction)
          ledger.db).1 = .error e)
    : (settled start final (ledger.transact host chainId sender tx.transaction)).accountOrDefault
      = (settled start final ledger).accountOrDefault := by
  have info := laws.rejected_info chainId _ ledger.db e rejected
  funext address
  by_cases before : address ∈ ledger.db.accounts
  · have now : address ∈ (ledger.transact host chainId sender tx.transaction).db.accounts :=
      laws.keeps chainId _ ledger.db address before
    rw [settled_of_mem start final before, settled_of_mem start final now]
    simp only [transact, (info address).1, (info address).2]
  · by_cases now : address ∈ (ledger.transact host chainId sender tx.transaction).db.accounts
    · rcases laws.rejected_entries chainId _ ledger.db e rejected address now with old | isSender
      · exact absurd old before
      · change address = sender at isSender
        subst isSender
        have unknown : start address = .ok none := by
          obtain ⟨found, read⟩ := readable address
          cases found with
          | none => exact read
          | some account =>
              exact absurd read (scope.underway.loaded address ⟨tx, member, Or.inl recovered⟩
                before account)
        have empty := CacheDb.infoOf_of_notMem before
        rw [settled_of_mem start final now, accountOrDefault,
          accountOrDefault, settled_of_later start before later]
        simp only [transact, (info address).1, (info address).2, empty, unknown, Except.map,
          Option.getD_none, Account.default]
    · unfold accountOrDefault
      by_cases entered : address ∈ final.accounts
      · rw [settled_of_later start before entered, settled_of_later start now entered]
      · have other : address ≠ sender := fun same => entered (same ▸ later)
        rw [settled_of_never start before entered, settled_of_never start now entered]
        exact congrArg _ (settle_of_ne other tx.transaction _ ledger.view)

/-- A turn that shows in the settled accounts takes the settled nonce of its sender. -/
theorem TurnScope.taken
    (scope : TurnScope host evmTxs start final ledger (ledger.evmTx host chainId tx).2)
    (laws : host.revm.NonceLaws) (readable : start.Readable) (member : tx ∈ evmTxs)
    (shows
      : (settled start final (ledger.evmTx host chainId tx).2).accountOrDefault
        ≠ (settled start final ledger).accountOrDefault)
    : ∃ sender,
        tx.sender host.crypto = .ok sender
        ∧ (settled start final ledger).nonceAt sender = tx.transaction.nonce
        ∧ tx.transaction.nonce
          < (settled start final (ledger.evmTx host chainId tx).2).nonceAt sender := by
  rcases evmTx_cases host chainId tx ledger with same | ⟨sender, due, same⟩
  · exact absurd (by rw [same]) shows
  · rw [same] at scope shows ⊢
    refine ⟨sender, due.recovered, ?_⟩
    cases run : (host.revm.transactCommit chainId (EvmExecutor.txEnv sender tx.transaction)
        ledger.db).1 with
    | error e =>
        by_cases later : sender ∈ final.accounts
        · exact absurd (scope.settled_of_rejected laws readable member due.recovered later run)
            shows
        · have now : sender ∉ (ledger.transact host chainId sender tx.transaction).db.accounts :=
            fun inside => later (scope.within sender inside)
          have before : sender ∉ ledger.db.accounts :=
            fun inside => now (laws.keeps chainId _ ledger.db sender inside)
          have counted := (transact_countsNonce host chainId).self sender tx ledger _ due.nonce
          rw [nonceAt_congr (congrArg (Except.map _) (settled_of_never start before later)),
            nonceAt_congr (congrArg (Except.map _) (settled_of_never start now later)),
            nonceAt_eq due.nonce, nonceAt_eq counted]
          exact ⟨rfl, Nat.lt_succ_self _⟩
    | ok result =>
        obtain ⟨had, entered, raised⟩ := laws.accepted chainId _ ledger.db result run
        have nonce : (ledger.db.infoOf sender).nonce = tx.transaction.nonce := had _ rfl
        have entered
            : sender ∈ (ledger.transact host chainId sender tx.transaction).db.accounts :=
          entered
        rw [nonceAt_settled_of_mem readable final entered]
        refine ⟨?_, ?_⟩
        · by_cases before : sender ∈ ledger.db.accounts
          · rw [nonceAt_settled_of_mem readable final before, nonce]
          · rw [nonceAt_congr (congrArg (Except.map _)
                (settled_of_later start before (scope.within sender entered))),
              nonceAt_eq (scope.fresh sender entered before), ← nonce,
              CacheDb.infoOf_of_notMem before]
        · rw [← nonce]
          exact Nat.lt_of_lt_of_eq (Nat.lt_succ_self _) raised.symm

end Turn

end Ledger

namespace Chain

variable {F : Type} [F32 F] {host : Host F} {order : BlockOrder F} {block : Block}
  {chain : Chain F}

section Accepted

variable (accepted : Accepted host order block chain)

include accepted

/-- The EVM pass ends as it was underway. -/
theorem Accepted.underway_end (laws : host.revm.NonceLaws)
    : Ledger.Underway host block.evmTxs (chain.accounts host)
        ((chain.evmEnd host block).ledger host chain.db) := by
  obtain ⟨_, succeeds⟩ := accepted.evmTurns_ledgers
  have kept
      : Ledger.Underway host block.evmTxs (chain.accounts host)
          (Loop.run (Ledger.evmTx host chain.evm.chainId) block.evmTxs
            (.start host block.evmTxs (chain.accounts host))).2 :=
    Loop.run_invariant (Ledger.Underway host block.evmTxs (chain.accounts host))
      (fun tx _ ledger held => held.evmTx laws tx)
      (Ledger.underway_start block.evmTxs (chain.accounts host))
  rwa [succeeds] at kept

/-- A turn of the EVM pass is underway, and its entries stay to the end. -/
theorem Accepted.turn_within (laws : host.revm.NonceLaws)
    {turn : Loop.Turn SignedTransaction Ledger}
    (member
      : turn ∈ Loop.turns (Ledger.evmTx host chain.evm.chainId) block.evmTxs
          (.start host block.evmTxs (chain.accounts host)))
    : Ledger.Underway host block.evmTxs (chain.accounts host) turn.before
      ∧ ∀ address ∈ turn.after.db.accounts,
          address ∈ (chain.evmEnd host block).evm.db.accounts := by
  obtain ⟨_, succeeds⟩ := accepted.evmTurns_ledgers
  constructor
  · exact Loop.turns_invariant (Ledger.Underway host block.evmTxs (chain.accounts host))
      (fun tx _ ledger held => held.evmTx laws tx) (Ledger.underway_start _ _) turn member
  · have kept := (@Loop.turns_le_end _ _ _ (Ledger.evmTx host chain.evm.chainId)
      (fun before after : Ledger =>
        ∀ address ∈ before.db.accounts, address ∈ after.db.accounts)
      (fun _ _ inside => inside)
      (fun _ _ _ first second address inside => second address (first address inside))
      block.evmTxs (.start host block.evmTxs (chain.accounts host))
      (fun tx _ ledger => Ledger.mem_evmTx laws tx ledger)).2 turn member
    rw [succeeds] at kept
    exact kept

end Accepted

end Chain

end VeloChain
