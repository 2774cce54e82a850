import VeloChain.Node.Lockstep
import VeloChain.Node.Tracking

/-! Blocks of EVM transactions against one database.
For every block the node loads an empty EVM database, flushes it and resets it. Over whole
runs this leaves what one run over a single database leaves, where the transactions only move
funds, touch only loaded accounts and are not rejected when due.
-/

namespace VeloChain

open AccountView

namespace Chain

variable {F : Type} [F32 F] {host : Host F} {order : BlockOrder F} {block : Block}
  {chain final : Chain F} {footprint : TxEnv → Set Address} {evm : EvmExecutor}

-----------------------------------------------------------------------------------------
-- Blocks and runs of EVM transactions
-----------------------------------------------------------------------------------------

/-- The transactions of the block touch only accounts that the EVM database has right. -/
def TouchesCovered (host : Host F) (footprint : TxEnv → Set Address) (chain : Chain F)
    (block : Block) : Prop :=
  ∀ tx ∈ block.body.transactions, ∀ sender, tx.sender host.crypto = .ok sender →
    footprint (EvmExecutor.txEnv sender tx.transaction)
      ⊆ Ledger.covered host block.evmTxs (chain.accounts host)

/-- The transactions of the blocks of a run. -/
def transactions (blocks : List (Block × BlockOrder F)) : List SignedTransaction :=
  blocks.flatMap (fun entry => entry.1.body.transactions)

omit [F32 F] in
/-- A block without game actions consists of EVM transactions. -/
theorem evmTxs_of_evmOnly (evmOnly : ∀ tx ∈ block.body.transactions, tx.isGameAction = false)
    : block.evmTxs = block.body.transactions ∧ block.gameTxs = [] := by
  constructor
  · exact List.filter_eq_self.mpr (fun tx member => by simp [evmOnly tx member])
  · exact List.filter_eq_nil_iff.mpr (fun tx member => by simp [evmOnly tx member])

/-- A block of EVM transactions leaves the node with the funds of the single database. -/
theorem Accepted.hasFunds (accepted : Accepted host order block chain)
    (sound : host.account.RoundTrips) (laws : host.revm.NonceLaws)
    (moves : host.revm.MovesFunds footprint)
    (counts : host.revm.CountsCallers (block.signers host.crypto))
    (evmOnly : ∀ tx ∈ block.body.transactions, tx.isGameAction = false)
    (covered : TouchesCovered host footprint chain block)
    (sameId : evm.chainId = chain.evm.chainId)
    (paid
      : ∀ turn ∈ Loop.turns (EvmExecutor.executeNext host) block.body.transactions evm,
          turn.before.rejectsDue host turn.item = false)
    (has : evm.db.HasFunds (chain.accounts host))
    : (evm.executeAll host block.body.transactions).db.HasFunds (accepted.result.accounts host)
      ∧ SameCode (chain.accounts host) (accepted.result.accounts host) := by
  obtain ⟨allEvm, noGame⟩ := evmTxs_of_evmOnly evmOnly
  have readable := has.readable
  have ran := Loop.eq_of_ok (accepted.ledgers readable).evmSucceeds
  have result := accepted.accounts_result sound readable
  rw [Ledger.runBlock, noGame, Loop.run_nil] at result
  rw [allEvm, ← sameId] at ran
  have tracks := (@Ledger.tracks_start F host block.body.transactions
    (block.signers host.crypto) (chain.accounts host) evm.db has).run laws moves counts evmOnly
    (fun tx member sender recovered => ⟨tx, member, recovered⟩)
    (by
      unfold TouchesCovered at covered
      rwa [allEvm] at covered)
    paid ran
  rw [result, Ledger.runEvm, allEvm, ← sameId]
  exact ⟨tracks.flush readable, tracks.underway.sameCode.trans (Ledger.sameCode_flush _)⟩

/-- A run of such blocks does as well, by induction on the blocks. -/
theorem run_hasFunds (sound : host.account.RoundTrips) (laws : host.revm.NonceLaws)
    (moves : host.revm.MovesFunds footprint) {blocks : List (Block × BlockOrder F)}
    (counts : ∀ entry ∈ blocks, host.revm.CountsCallers (entry.1.signers host.crypto))
    (evmOnly : ∀ entry ∈ blocks, ∀ tx ∈ entry.1.body.transactions, tx.isGameAction = false)
    (covered
      : ∀ turn ∈ Loop.turns (importBlock host) blocks chain,
          TouchesCovered host footprint turn.before turn.item.1)
    (sameId : evm.chainId = chain.evm.chainId)
    (paid
      : ∀ turn ∈ Loop.turns (EvmExecutor.executeNext host) (transactions blocks) evm,
          turn.before.rejectsDue host turn.item = false)
    (has : evm.db.HasFunds (chain.accounts host))
    (applied : Loop.run (importBlock host) blocks chain = (.ok (), final))
    : (evm.executeAll host (transactions blocks)).db.HasFunds (final.accounts host)
      ∧ SameCode (chain.accounts host) (final.accounts host) := by
  induction blocks generalizing chain evm with
  | nil =>
      obtain rfl := (Prod.mk.inj applied).2
      exact ⟨has, .refl _⟩
  | cons entry rest ih =>
      obtain ⟨block, order⟩ := entry
      obtain ⟨next, imported, applied⟩ := Loop.run_cons_ok_iff.mp applied
      rw [Loop.turns_cons_ok imported] at covered
      obtain ⟨countsFirst, counts⟩ := List.forall_mem_cons.mp counts
      obtain ⟨evmFirst, evmOnly⟩ := List.forall_mem_cons.mp evmOnly
      obtain ⟨coveredFirst, covered⟩ := List.forall_mem_cons.mp covered
      obtain ⟨accepted, rfl⟩ := applyBlock_ok_iff.mp imported
      rw [transactions, List.flatMap_cons] at paid ⊢
      rw [Loop.turns_append_ok (EvmExecutor.run_executeNext host block.body.transactions evm)]
        at paid
      obtain ⟨paidFirst, paidRest⟩ := List.forall_mem_append.mp paid
      obtain ⟨hasFirst, codeFirst⟩ := accepted.hasFunds sound laws moves countsFirst evmFirst
        coveredFirst sameId paidFirst has
      have keptId := (EvmExecutor.executeAll_frame moves block.body.transactions evm).1
      obtain ⟨hasRest, codeRest⟩ := ih counts evmOnly covered
        (keptId.trans (sameId.trans accepted.chainId.symm)) paidRest hasFirst applied
      rw [EvmExecutor.executeAll_append]
      exact ⟨hasRest, codeFirst.trans codeRest⟩

-----------------------------------------------------------------------------------------
-- Runs refine one execution on a single database
-----------------------------------------------------------------------------------------

/-- Where a database that holds the accounts of the chain executes the transactions, it holds
the final accounts, and an account it leaves unchanged is unchanged.
-/
def RefinesSingle (host : Host F) (txs : List SignedTransaction) (chain final : Chain F)
    (evm : EvmExecutor)
    : Prop :=
  ∀ stands : B256 → B256 → Contents → Prop,
    evm.db.Mirrors stands (chain.accounts host)
    → (evm.executeAll host txs).db.Mirrors stands (final.accounts host)
      ∧ ∀ address,
          (evm.executeAll host txs).db.fundsOf address = evm.db.fundsOf address
          → (evm.executeAll host txs).db.contentsOf address = evm.db.contentsOf address
          → (final.accounts host).accountOrDefault address
            = (chain.accounts host).accountOrDefault address

/-- Blocks of transactions that move funds leave the node as one run over a single database
would, however the transactions are split into blocks, where every account they touch was
loaded or had no funds and no due transaction is rejected.
-/
theorem singleDatabase_run (sound : host.account.RoundTrips) (laws : host.revm.NonceLaws)
    (moves : host.revm.MovesFunds footprint) {blocks : List (Block × BlockOrder F)}
    (counts : ∀ entry ∈ blocks, host.revm.CountsCallers (entry.1.signers host.crypto))
    (evmOnly : ∀ entry ∈ blocks, ∀ tx ∈ entry.1.body.transactions, tx.isGameAction = false)
    (covered
      : ∀ turn ∈ Loop.turns (importBlock host) blocks chain,
          TouchesCovered host footprint turn.before turn.item.1)
    {txs : List SignedTransaction} (split : transactions blocks = txs)
    (sameId : evm.chainId = chain.evm.chainId)
    (paid
      : ∀ turn ∈ Loop.turns (EvmExecutor.executeNext host) txs evm,
          turn.before.rejectsDue host turn.item = false)
    (applied : Loop.run (importBlock host) blocks chain = (.ok (), final))
    : RefinesSingle host txs chain final evm := by
  subst split
  intro stands mirrors
  have has := mirrors.hasFunds
  obtain ⟨hasEnd, sameCode⟩ := run_hasFunds sound laws moves counts evmOnly covered sameId paid
    has applied
  have contents := (EvmExecutor.executeAll_frame moves (transactions blocks) evm).2
  refine ⟨mirrors.of_hasFunds hasEnd sameCode contents, ?_⟩
  intro address sameFunds _
  exact sameCode.accountOrDefault_eq has hasEnd sameFunds

omit [F32 F] in
/-- A transfer touches only its sender and its recipient, which are loaded. -/
theorem touchesCovered_endpoints (evmOnly : ∀ tx ∈ block.body.transactions, tx.isGameAction = false)
    : TouchesCovered host Revm.endpoints chain block := by
  intro tx member sender recovered address touched
  refine Or.inl ⟨tx, (evmTxs_of_evmOnly evmOnly).1 ▸ member, ?_⟩
  cases touched with
  | inl isSender =>
      obtain rfl : address = sender := isSender
      exact Or.inl recovered
  | inr called => exact Or.inr called

-----------------------------------------------------------------------------------------
-- Where the node diverges from a single database
-----------------------------------------------------------------------------------------

section Divergence

/-- The reference chain has one account. -/
theorem accounts_reference {host : Host Milli} (sound : host.account.RoundTrips)
    (world : GameWorld Milli) (address : Address) (balance : U256)
    : (reference host world address balance).accounts host
      = Function.update (fun _ => .ok none) address (.ok (some (.withBalance balance))) := by
  apply (WorldState.view_congr host.account _ (committedView_initGenesis host _ _)).trans
  apply (WorldState.view_commit .empty sound _ _ _).trans
  rw [WorldState.view_putAccount]
  rfl

/-- An executor whose database holds the one account of the reference chain. -/
def singleReference (address : Address) (balance : U256) : EvmExecutor :=
  { chainId := 1
    db := { accounts := Finmap.singleton address (Ledger.entryOf (.withBalance balance)) } }

theorem mirrors_singleReference {host : Host Milli} (sound : host.account.RoundTrips)
    (world : GameWorld Milli) (address : Address) (balance : U256)
    {stands : B256 → B256 → Contents → Prop}
    (known : stands 0 0 { codeHash := 0, code := none, storage := ∅ })
    : (singleReference address balance).db.Mirrors stands
        ((reference host world address balance).accounts host) := by
  intro other
  rw [accounts_reference sound]
  by_cases same : other = address
  · subst same
    have found
        : (singleReference other balance).db.accounts.lookup other
          = some (Ledger.entryOf (.withBalance balance)) := Finmap.lookup_singleton_eq
    refine ⟨.withBalance balance, ?_, ?_, ?_⟩
    · rw [accountOrDefault, Function.update_self]
      rfl
    · rw [CacheDb.fundsOf_of_some found]
      rfl
    · simp only [CacheDb.contentsOf, found]
      exact known
  · have missing : other ∉ (singleReference address balance).db.accounts := by
      intro member
      exact same (Finmap.mem_singleton _ _ _ |>.mp member)
    refine ⟨.default, ?_, CacheDb.fundsOf_of_notMem missing, ?_⟩
    · rw [accountOrDefault, Function.update_of_ne same]
      rfl
    · simp only [CacheDb.contentsOf, Finmap.lookup_eq_none.mpr missing]
      exact known

omit [F32 F] in
/-- Where the funds of one account differ, the node does not refine the single database. -/
theorem not_refinesSingle {host : Host F} {txs : List SignedTransaction} {chain final : Chain F}
    {evm : EvmExecutor} (mirrors : evm.db.Mirrors (fun _ _ _ => True) (chain.accounts host))
    {address : Address}
    (differs
      : ((final.accounts host).accountOrDefault address).toOption.map Account.funds
        ≠ some ((evm.executeAll host txs).db.fundsOf address))
    : ¬ RefinesSingle host txs chain final evm := by
  intro refines
  obtain ⟨account, read, funds, _⟩ := (refines _ mirrors).1 address
  rw [read, funds] at differs
  exact differs rfl

/-- A block with a stale transfer beside a due one, and one more transfer in the next block. -/
def splitTransfers : List (Block × BlockOrder Milli) :=
  let one : Block := .following (.genesis 0) [.transfer 9 1 0 4 5, .transfer 9 1 0 4 5]
  let two : Block := .following one.header [.transfer 9 1 1 4 6]
  [one, two].map (fun block => (block, .ascending Milli))

theorem singleDatabase_run_splitTransfers
    : ((singleReference 9 1000).executeAll (.reference [])
          (transactions splitTransfers)).db.Mirrors
        (fun codeHash _ contents => contents.codeHash = codeHash)
        ((Loop.run (importBlock (.reference [])) splitTransfers
          (.reference (.reference []) .reference 9 1000)).2.accounts (.reference [])) := by
  have evmOnly
      : ∀ entry ∈ splitTransfers, ∀ tx ∈ entry.1.body.transactions, tx.isGameAction = false := by
    decide +kernel
  have applied
      : (Loop.run (importBlock (.reference [])) splitTransfers
          (.reference (.reference []) .reference 9 1000)).1 = .ok () := by
    decide +kernel
  have refines
      : RefinesSingle (.reference []) (transactions splitTransfers)
          (.reference (.reference []) .reference 9 1000) _ (singleReference 9 1000) :=
    singleDatabase_run Account.wordCodec_roundTrips Revm.transfers_nonceLaws
      Revm.transfers_movesFunds (fun _ _ => Revm.transfers_countsCallers _) evmOnly
      (fun turn member => touchesCovered_endpoints
        (evmOnly turn.item (Loop.turns_ok (Loop.eq_of_ok applied) member).1))
      rfl rfl (by decide +kernel) (Loop.eq_of_ok applied)
  exact (refines _ (mirrors_singleReference Account.wordCodec_roundTrips .reference 9 1000 rfl)).1

/-- Transfers whose price for gas goes to a coinbase. -/
def feePaying (coinbase : Address) : Revm :=
  { transactCommit := fun chainId env db =>
      match Revm.transfers.transactCommit chainId env db with
      | (.error e, db) => (.error e, db)
      | (.ok result, db) =>
          let account := db.infoOf coinbase
          let fee := BitVec.ofNat 256 (Revm.transferGas.toNat * env.gasPrice.toNat)
          (.ok result,
            db.insertAccountInfo coinbase { account with balance := account.balance + fee }) }

/-- A block with one transfer that pays for its gas, and another one like it. -/
def paidTransfers : List (Block × BlockOrder Milli) :=
  let paid (nonce : Nat) : SignedTransaction :=
    Transaction.signedWith 9
      { (SignedTransaction.transfer 9 1 nonce 4 5).transaction with gasPrice := some 1 }
  let one : Block := .following (.genesis 0) [paid 0]
  let two : Block := .following one.header [paid 1]
  [one, two].map (fun block => (block, .ascending Milli))

/-- Calls that count themselves in the storage of their caller and show the count as balance. -/
def tallying : Revm :=
  { transactCommit := fun _ env db =>
      let info := db.infoOf env.caller
      let storage := (db.contentsOf env.caller).storage
      let count := (storage.lookup 0).getD 0 + 1
      (.ok (.success 0 (.call []) []),
        { accounts := db.accounts.insert env.caller
            { info := { info with balance := count, nonce := info.nonce + 1 }
              storage := storage.insert 0 count } }) }

/-- Storage is not carried over: the count of the second block starts again. -/
theorem singleDatabase_fails_on_tallying
    : ¬ ∀ (host : Host Milli) (blocks : List (Block × BlockOrder Milli))
          (chain final : Chain Milli) (evm : EvmExecutor),
        host.account.RoundTrips
        → chain.AccountsReadable host
        → (∀ entry ∈ blocks, ∀ tx ∈ entry.1.body.transactions, tx.isGameAction = false)
        → evm.chainId = chain.evm.chainId
        → Loop.run (importBlock host) blocks chain = (.ok (), final)
        → RefinesSingle host (transactions blocks) chain final evm := by
  intro claimed
  let host : Host Milli := { Host.reference [] with revm := tallying }
  have applied
      : (Loop.run (importBlock host) paidTransfers (.reference host .reference 9 1000)).1
        = .ok () := by
    decide +kernel
  have refines := claimed host paidTransfers (.reference host .reference 9 1000) _
    (singleReference 9 1000) Account.wordCodec_roundTrips (Account.wordCodec_readable _)
    (by decide +kernel) rfl (Loop.eq_of_ok applied)
  have mirrors := @mirrors_singleReference host Account.wordCodec_roundTrips .reference 9 1000
    (fun _ _ _ => True) trivial
  exact @not_refinesSingle Milli host _ _ _ _ mirrors 9 (by decide +kernel) refines

/-- The coinbase is not loaded, so the fees of the second block replace those of the first. -/
theorem not_refinesSingle_paidTransfers
    : ¬ RefinesSingle { Host.reference [] with revm := feePaying 0 } (transactions paidTransfers)
        (.reference { Host.reference [] with revm := feePaying 0 } .reference 9 100000)
        (Loop.run (importBlock { Host.reference [] with revm := feePaying 0 }) paidTransfers
          (.reference { Host.reference [] with revm := feePaying 0 } .reference 9 100000)).2
        (singleReference 9 100000) := by
  have mirrors := @mirrors_singleReference { Host.reference [] with revm := feePaying 0 }
    Account.wordCodec_roundTrips .reference 9 100000 (fun _ _ _ => True) trivial
  exact @not_refinesSingle Milli _ _ _ _ _ mirrors 0 (by decide +kernel)

/-- A transfer that is not covered, and one for nothing with the same nonce. -/
def retriedTransfer : List (Block × BlockOrder Milli) :=
  [(.following (.genesis 0) [.transfer 9 1 0 4 5, .transfer 9 1 0 4 0], .ascending Milli)]

/-- The rejected transfer is counted until the flush, so the node passes over the second one. -/
theorem not_refinesSingle_retriedTransfer
    : ¬ RefinesSingle (.reference []) (transactions retriedTransfer) pennilessChain
        (Loop.run (importBlock (.reference [])) retriedTransfer pennilessChain).2
        (singleReference 9 0) := by
  have mirrors := @mirrors_singleReference (.reference []) Account.wordCodec_roundTrips
    .reference 9 0 (fun _ _ _ => True) trivial
  exact @not_refinesSingle Milli _ _ _ _ _ mirrors 9 (by decide +kernel)

end Divergence

end Chain

end VeloChain
