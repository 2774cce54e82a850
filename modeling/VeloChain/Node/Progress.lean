import VeloChain.Node.Acceptance
import VeloChain.Node.ProducerAgreement

/-! When a validator's own block is accepted.
Seal, senders and accounts are in order in every state a node can reach; what remains is
whether the game world lets the actions of the selected transactions through.
-/

namespace VeloChain

namespace Chain

variable {F : Type} [F32 F] {host : Host F}

/-- Stored accounts can be read, and the pool has filed its transactions. -/
structure Healthy (host : Host F) (chain : Chain F) : Prop where
  accounts : chain.AccountsReadable host
  pool : chain.txpool.Filed host.crypto

theorem Healthy.applyBlock (sound : host.account.RoundTrips) {chain : Chain F}
    (healthy : chain.Healthy host) (order : BlockOrder F) (block : Block)
    : (chain.applyBlock host order block).2.Healthy host := by
  rcases applied : chain.applyBlock host order block with ⟨e | _, after⟩
  · obtain ⟨_, _, _, rfl⟩ := applyBlock_error applied
    exact ⟨healthy.accounts, healthy.pool⟩
  · obtain ⟨accepted, rfl⟩ := applyBlock_ok_iff.mp applied
    exact ⟨healthy.accounts.finalize order block accepted.processed accepted.world sound,
      healthy.pool.removeIncluded _⟩

omit [F32 F] in
/-- The transactions of a reverted block are filed like any others. -/
theorem Healthy.revertBlock {chain : Chain F} (healthy : chain.Healthy host) (number : UInt64)
    : (chain.revertBlock host number).2.Healthy host := by
  unfold Chain.revertBlock
  split
  next => exact healthy
  next => exact healthy
  next block _ => exact ⟨healthy.accounts, healthy.pool.addTransactions block.body.transactions⟩

omit [F32 F] in
theorem Healthy.setHead {chain : Chain F} (healthy : chain.Healthy host) (header : BlockHeader)
    : (chain.setHead header).Healthy host := by
  refine ⟨?_, healthy.pool⟩
  unfold AccountsReadable Chain.setHead
  rw [WorldState.committedView_congr host.account
    (Database.contents_putLatestBlockNumber (by decide) header.number chain.db)]
  exact healthy.accounts

omit [F32 F] in
theorem Healthy.prepareOnly {chain : Chain F} (healthy : chain.Healthy host) (now : UInt64)
    : (chain.prepareOnly host now).Healthy host := by
  unfold Chain.prepareOnly
  split
  next => exact healthy
  next => exact ⟨healthy.accounts, healthy.pool⟩

theorem Healthy.produceBlock (sound : host.account.RoundTrips) {chain : Chain F}
    (healthy : chain.Healthy host) (now : UInt64)
    (senders : IterationOrder Address SenderQueue) (order : BlockOrder F)
    : (chain.produceBlock host now senders order).2.Healthy host := by
  have prepared := healthy.prepareOnly now
  rcases @produceBlock_cases F _ host now senders order chain with same | ⟨block, same, _⟩
  · rwa [same]
  · rw [same]
    exact prepared.applyBlock sound order block

/-- Every step of a node keeps it healthy. -/
theorem Healthy.step (sound : host.account.RoundTrips) {chain : Chain F}
    (healthy : chain.Healthy host) (s : NodeStep F)
    : (chain.step host s).Healthy host := by
  cases s with
  | importBlock block order => exact healthy.applyBlock sound order block
  | reorg forkPoint newBlocks =>
      exact executeReorg_invariant (Healthy host) healthy
        (fun _ number _ held => held.revertBlock number)
        (fun _ block held _ _ => held.setHead block.header)
        (fun _ entry _ held => held.applyBlock sound entry.2 entry.1)
  | produce now senders order => exact healthy.produceBlock sound now senders order
  | prepare now => exact healthy.prepareOnly now
  | addTransaction tx => exact ⟨healthy.accounts, healthy.pool.addTransaction tx⟩
  | readAccount address => exact ⟨healthy.accounts, healthy.pool⟩
  | restart =>
      obtain ⟨head, frame⟩ := @restart_frame F _ host chain
      rw [Chain.step, frame]
      exact ⟨healthy.accounts, TransactionPool.filed_withMaxSize _⟩

/-- A node stays healthy over every run. -/
theorem Healthy.runSteps (sound : host.account.RoundTrips) {chain : Chain F}
    (healthy : chain.Healthy host) (steps : List (NodeStep F))
    : (chain.runSteps host steps).Healthy host :=
  runSteps_invariant (Healthy host) (fun _ s _ held => held.step sound s) healthy

/-- A validator whose prepared header keeps the rules gets as far as applying a block of its
selected transactions, and that block passes the verification.
-/
theorem produceBlock_eq (sound : host.crypto.SignsRecoverably) {secret : B256}
    {keypair : Keypair} (made : Keypair.fromSecretKey host.crypto secret = .ok keypair)
    {chain : Chain F} (validates : chain.consensus.Validates keypair)
    {parent header : BlockHeader} (head : chain.head = some parent) {now : UInt64}
    {consensus : PoaConsensus}
    (prepared : chain.consensus.prepareHeader host.crypto now parent = (.ok header, consensus))
    (rules : PoaConsensus.verifyHeader host.crypto header parent = .ok ())
    (senders : IterationOrder Address SenderQueue) (order : BlockOrder F)
    : ∃ sealed,
        sealed.body.transactions = (selectedTxs senders chain.txpool).1
        ∧ consensus.verifyBlock host.crypto sealed parent = .ok ()
        ∧ chain.produceBlock host now senders order
          = match ({ chain with consensus } : Chain F).applyBlock host order sealed with
            | (.error e, next) => (.error e, next)
            | (.ok (), next) => (.ok sealed, next) := by
  have isPrepared := @PoaConsensus.Validates.prepareHeader host.crypto _ _ validates now parent
  obtain ⟨isHeader, isConsensus⟩ := Prod.mk.inj (prepared.symm.trans isPrepared)
  have isHeader := Except.ok.inj isHeader
  have validatesNext : consensus.Validates keypair := by
    rw [isConsensus]
    exact ⟨validates.signs, validates.localAddress, validates.listed⟩
  have gasLimit : header.gasLimit = defaultBlockGasLimit := by rw [isHeader]; rfl
  have bare : header.extraData = [] := by rw [isHeader]; rfl
  have own : header.beneficiary = keypair.address := by rw [isHeader]; rfl
  obtain ⟨extraData, isSealed, sealOk⟩ := validatesNext.sealBlock sound made
    (assembleBlock host header (selectedTxs senders chain.txpool).1
      (selectedTxs senders chain.txpool).2) bare own
  have follows := PoaConsensus.verifyHeader_ok_iff.mp rules
  refine ⟨_, rfl, PoaConsensus.verifyBlock_of_followsParent
    ⟨follows.number, follows.parentHash, follows.timestamp, follows.gameTick,
      follows.difficulty⟩ sealOk, ?_⟩
  unfold produceBlock
  simp only [head, prepared, gasLimit]
  unfold selectedTxs at isSealed ⊢
  rewrite [isSealed]
  rfl

/-- In every state a validator's node reaches, its next block is accepted and becomes the new
head exactly when the game world admits the actions of the selected transactions, provided
that the prepared header keeps the rules.
-/
theorem produces_after_run_iff (sound : host.crypto.SignsRecoverably)
    (roundTrips : host.account.RoundTrips) {secret : B256} {keypair : Keypair}
    (made : Keypair.fromSecretKey host.crypto secret = .ok keypair)
    {validators : List Address} (listed : keypair.address ∈ validators) {config : PoaConfig}
    {start final : Chain F}
    (fresh : start.consensus = PoaConsensus.newWithKeypair keypair validators config)
    (healthy : start.Healthy host) {steps : List (NodeStep F)}
    (ran : final = start.runSteps host steps) {parent header : BlockHeader}
    (head : final.head = some parent) {now : UInt64} {consensus : PoaConsensus}
    (prepared : final.consensus.prepareHeader host.crypto now parent = (.ok header, consensus))
    (rules : PoaConsensus.verifyHeader host.crypto header parent = .ok ())
    (senders : IterationOrder Address SenderQueue) (order : BlockOrder F)
    : (∃ block next,
        final.produceBlock host now senders order = (.ok block, next)
        ∧ next.head = some block.header)
      ↔ final.gameWorld.ecs.roster.Admits
          ((Partition.payloads host.crypto (selectedTxs senders final.txpool).1).map
            Payload.entry) := by
  have healthyFinal := healthy.runSteps roundTrips steps
  rw [← ran] at healthyFinal
  have counted : start.consensus = countingEngine keypair validators config 0 := fresh
  have validates : final.consensus.Validates keypair := by
    rw [ran, runSteps_consensus listed counted]
    exact validates_countingEngine listed _
  obtain ⟨sealed, body, verified, produced⟩ :=
    produceBlock_eq sound made validates head prepared rules senders order
  have readable : ∀ tx ∈ sealed.body.transactions,
      SenderReadable host.crypto (({ final with consensus } : Chain F).accounts host) tx := by
    intro tx member
    rw [body] at member
    obtain ⟨sender, recovered⟩ := healthyFinal.pool.sender_getPending
      (selectTxs_subset member)
    exact ⟨sender, recovered, healthyFinal.accounts.accounts sender⟩
  have accepts := @applyBlock_accepts_iff F _ host order sealed
    ({ final with consensus } : Chain F)
  simp only [gameEntries, AdmitsActions, body] at accepts
  constructor
  · rintro ⟨block, next, produces, _⟩
    rcases applied : ({ final with consensus } : Chain F).applyBlock host order sealed
      with ⟨e | _, after⟩
    · simp [produced, applied] at produces
    · exact (accepts.mp ⟨after, applied⟩).2.2
  · intro admits
    obtain ⟨next, applied⟩ := accepts.mpr
      ⟨⟨parent, head, verified⟩, by rwa [← body], admits⟩
    refine ⟨sealed, next, by rw [produced, applied], ?_⟩
    obtain ⟨accepted, rfl⟩ := applyBlock_ok_iff.mp applied
    rfl

theorem genesisValidator_healthy : genesisValidator.Healthy genesisHost :=
  ⟨Account.wordCodec_readable _, TransactionPool.filed_withMaxSize _⟩

/-- The order in which the pool of the reference node is walked. -/
def sendersAscending : IterationOrder Address SenderQueue :=
  FinMap.ascending BitVec.toNat Address.toNat_injective

/-- A pooled attack on an entity that does not exist keeps the producer from any block. -/
theorem produces_fails_on_missing_target
    : ¬ ∀ (host : Host Milli) (keypair : Keypair) (secret : B256) (validators : List Address)
          (config : PoaConfig) (start : Chain Milli) (steps : List (NodeStep Milli))
          (parent header : BlockHeader) (now : UInt64) (consensus : PoaConsensus)
          (senders : IterationOrder Address SenderQueue) (order : BlockOrder Milli),
        host.crypto.SignsRecoverably
        → host.account.RoundTrips
        → Keypair.fromSecretKey host.crypto secret = .ok keypair
        → keypair.address ∈ validators
        → start.consensus = PoaConsensus.newWithKeypair keypair validators config
        → start.Healthy host
        → (start.runSteps host steps).head = some parent
        → (start.runSteps host steps).consensus.prepareHeader host.crypto now parent
            = (.ok header, consensus)
        → PoaConsensus.verifyHeader host.crypto header parent = .ok ()
        → ∃ block next,
            (start.runSteps host steps).produceBlock host now senders order = (.ok block, next)
            ∧ next.head = some block.header := by
  intro claimed
  let attacked := genesisValidator.runSteps genesisHost
    [.addTransaction (.action 9 1 0 (.attack 42))]
  have validates : attacked.consensus.Validates .reference := ⟨rfl, rfl, by decide⟩
  obtain ⟨block, next, produces, _⟩ := claimed genesisHost .reference 7 [7] { period := 1 }
    genesisValidator [.addTransaction (.action 9 1 0 (.attack 42))] (.genesis 0) _ 0 _
    sendersAscending (.ascending Milli) Crypto.disclosing_signsRecoverably
    Account.wordCodec_roundTrips (by decide +kernel) (by decide) rfl genesisValidator_healthy rfl
    (validates.prepareHeader 0 (.genesis 0)) (by decide +kernel)
  have fails
      : (attacked.produceBlock genesisHost 0 sendersAscending (.ascending Milli)).1.isOk
        = false := by
    decide +kernel
  rw [produces] at fails
  cases fails

/-- A player moves. -/
def pooledMove : List (NodeStep Milli) :=
  [.addTransaction (.action 9 1 0 (.move 1000 0 0))]

/-- With a move in its pool, the validator produces a block. -/
theorem genesisValidator_produces
    : let pooled := genesisValidator.runSteps genesisHost pooledMove
      (∃ block next,
        pooled.produceBlock genesisHost 0 sendersAscending (.ascending Milli) = (.ok block, next)
        ∧ next.head = some block.header)
      ↔ pooled.gameWorld.ecs.roster.Admits
          ((Partition.payloads genesisHost.crypto
            (selectedTxs sendersAscending pooled.txpool).1).map Payload.entry) := by
  intro pooled
  have validates : pooled.consensus.Validates .reference := ⟨rfl, rfl, by decide⟩
  exact @produces_after_run_iff Milli _ genesisHost Crypto.disclosing_signsRecoverably
    Account.wordCodec_roundTrips 7 .reference (by decide +kernel) [7] (by decide)
    { period := 1 } genesisValidator pooled rfl genesisValidator_healthy pooledMove rfl
    (.genesis 0) _ rfl 0 _ (validates.prepareHeader 0 (.genesis 0)) (by decide +kernel)
    sendersAscending (.ascending Milli)

end Chain

end VeloChain
