import VeloChain.Consensus.Seal
import VeloChain.Node.Reference
import VeloChain.Node.Run

/-! When the headers a node produces pass its own verification.
Verification compares with the parent header, production counts its own calls since the
process started; they agree exactly while the count is the game tick of the head.
-/

namespace VeloChain

namespace PoaConsensus

variable {crypto : Crypto}

/-- Every header prepared for `parent` is accepted after it is filled in and sealed. -/
def ProducesAcceptable (crypto : Crypto) (consensus : PoaConsensus) (parent : BlockHeader)
    : Prop :=
  ∀ now transactionsRoot gasUsed transactions header after,
    consensus.prepareHeader crypto now parent = (.ok header, after)
    → ∃ sealed,
        after.sealBlock crypto
            (Block.new { header with transactionsRoot, gasUsed } transactions)
          = .ok sealed
        ∧ after.verifyBlock crypto sealed parent = .ok ()

/-- A prepared header keeps the header rules exactly when the counter is at the tick of the
parent and the clock or the period moves the timestamp forward.
-/
theorem followsParent_nextHeader_iff {now : UInt64} {parent : BlockHeader}
    {producer : Address} {period gameTick : UInt64} {transactionsRoot : B256}
    {gasUsed : UInt64} {extraData : Bytes}
    : FollowsParent crypto
        { nextHeader crypto now parent producer period gameTick with
          transactionsRoot, gasUsed, extraData } parent
      ↔ gameTick = parent.gameTick + 1
        ∧ parent.timestamp < max now (parent.timestamp + period) :=
  ⟨fun rules => ⟨rules.gameTick, rules.timestamp⟩,
    fun ⟨gameTick, timestamp⟩ => ⟨rfl, rfl, timestamp, gameTick, rfl⟩⟩

theorem lt_max_iff_uint64 {a b c : UInt64} : a < max b c ↔ a < b ∨ a < c := by
  change a < (if b ≤ c then c else b) ↔ _
  simp only [UInt64.lt_iff_toNat_lt, UInt64.le_iff_toNat_le]
  split <;> omega

/-- The timestamp moves forward at every clock exactly when the sum does not overflow. -/
theorem timestamp_advances_iff {timestamp period : UInt64} (positive : 1 ≤ period)
    : (∀ now, timestamp < max now (timestamp + period))
      ↔ timestamp.toNat + period.toNat < 2 ^ 64 := by
  have atLeastOne := UInt64.le_iff_toNat_le.mp positive
  have small := timestamp.toNat_lt
  have smallPeriod := period.toNat_lt
  rw [UInt64.toNat_one] at atLeastOne
  constructor
  · intro advances
    have atZero := advances 0
    rw [lt_max_iff_uint64, UInt64.lt_iff_toNat_lt, UInt64.lt_iff_toNat_lt, UInt64.toNat_zero,
      UInt64.toNat_add] at atZero
    by_contra overflow
    rw [Nat.mod_eq_sub_mod (by omega), Nat.mod_eq_of_lt (by omega)] at atZero
    omega
  · intro fits now
    refine lt_max_iff_uint64.mpr (Or.inr ?_)
    rw [UInt64.lt_iff_toNat_lt, UInt64.toNat_add, Nat.mod_eq_of_lt fits]
    omega

/-- A validator's headers are acceptable exactly when its counter is at the tick of the
parent and the next timestamp does not overflow.
-/
theorem Validates.producesAcceptable_iff {consensus : PoaConsensus} {keypair : Keypair}
    (validates : consensus.Validates keypair) (sound : crypto.SignsRecoverably) {secret : B256}
    (made : Keypair.fromSecretKey crypto secret = .ok keypair)
    (positive : 1 ≤ consensus.config.period) {parent : BlockHeader}
    : consensus.ProducesAcceptable crypto parent
      ↔ consensus.gameTick = parent.gameTick
        ∧ parent.timestamp.toNat + consensus.config.period.toNat < 2 ^ 64 := by
  have next : ({ consensus with gameTick := consensus.gameTick + 1 } : PoaConsensus).Validates
      keypair :=
    ⟨validates.signs, validates.localAddress, validates.listed⟩
  have advanced {tick tick' : UInt64} : tick + 1 = tick' + 1 ↔ tick = tick' :=
    UInt64.add_left_inj 1
  constructor
  · intro acceptable
    have rules (now : UInt64)
        : consensus.gameTick + 1 = parent.gameTick + 1
          ∧ parent.timestamp < max now (parent.timestamp + consensus.config.period) := by
      obtain ⟨sealed, done, accepted⟩ := acceptable now 0 0 [] _ _
        (validates.prepareHeader now parent)
      obtain ⟨extraData, isSealed, _⟩ := next.sealBlock sound made
        (Block.new
          (nextHeader crypto now parent keypair.address consensus.config.period
            (consensus.gameTick + 1)) []) rfl rfl
      obtain rfl := Except.ok.inj (isSealed.symm.trans done)
      exact followsParent_nextHeader_iff.mp (verifyBlock_header accepted)
    exact ⟨advanced.mp (rules 0).1,
      (timestamp_advances_iff positive).mp (fun now => (rules now).2)⟩
  · rintro ⟨tick, fits⟩ now transactionsRoot gasUsed transactions header after prepared
    rw [validates.prepareHeader] at prepared
    obtain ⟨isHeader, rfl⟩ := Prod.mk.inj prepared
    obtain rfl := Except.ok.inj isHeader
    obtain ⟨extraData, done, accepted⟩ := next.sealBlock sound made
      (Block.new
        { nextHeader crypto now parent keypair.address consensus.config.period
            (consensus.gameTick + 1) with transactionsRoot, gasUsed } transactions) rfl rfl
    have rules := (@followsParent_nextHeader_iff crypto now parent keypair.address
      consensus.config.period (consensus.gameTick + 1) transactionsRoot gasUsed extraData).mpr
      ⟨advanced.mpr tick, (timestamp_advances_iff positive).mpr fits now⟩
    exact ⟨_, done, verifyBlock_of_followsParent rules accepted⟩

end PoaConsensus

namespace Chain

variable {F : Type} [F32 F] {host : Host F}

/-- The number of `prepareHeader` calls of the running process after one more step. -/
def callsAfter (chain : Chain F) (calls : Nat) : NodeStep F → Nat
  | .produce _ _ _ => if chain.head.isSome then calls + 1 else calls
  | .prepare _ => if chain.head.isSome then calls + 1 else calls
  | .restart => 0
  | _ => calls

/-- The number of `prepareHeader` calls since the process of the last step started. -/
def prepareCalls (host : Host F) : Chain F → Nat → List (NodeStep F) → Nat
  | _, calls, [] => calls
  | chain, calls, s :: rest =>
      prepareCalls host (chain.step host s) (callsAfter chain calls s) rest

/-- The engine of a validator whose process has made `calls` calls of `prepareHeader`. -/
def countingEngine (keypair : Keypair) (validators : List Address) (config : PoaConfig)
    (calls : Nat) : PoaConsensus :=
  { PoaConsensus.newWithKeypair keypair validators config with gameTick := UInt64.ofNat calls }

section Validator

variable {keypair : Keypair} {validators : List Address} {config : PoaConfig}

theorem validates_countingEngine (listed : keypair.address ∈ validators) (calls : Nat)
    : (countingEngine keypair validators config calls).Validates keypair :=
  ⟨rfl, rfl, listed⟩

omit [F32 F] in
theorem prepareOnly_consensus (listed : keypair.address ∈ validators) {chain : Chain F}
    {calls : Nat} (counted : chain.consensus = countingEngine keypair validators config calls)
    (now : UInt64)
    : (chain.prepareOnly host now).consensus
      = countingEngine keypair validators config
          (if chain.head.isSome then calls + 1 else calls) := by
  unfold prepareOnly
  cases chain.head with
  | none => exact counted
  | some parent =>
      simp only [Option.isSome_some, if_true]
      rw [counted, (validates_countingEngine listed calls).prepareHeader]
      simp only [countingEngine, UInt64.ofNat_add, UInt64.ofNat_one]

/-- The tick counter counts the calls of the process, over every step. -/
theorem step_consensus (listed : keypair.address ∈ validators) {chain : Chain F} {calls : Nat}
    (counted : chain.consensus = countingEngine keypair validators config calls)
    (s : NodeStep F)
    : (chain.step host s).consensus
      = countingEngine keypair validators config (callsAfter chain calls s) := by
  cases s with
  | importBlock block order => exact (applyBlock_config order block chain).1.trans counted
  | reorg forkPoint newBlocks =>
      exact (executeReorg_config forkPoint newBlocks chain).1.trans counted
  | produce now senders order =>
      exact (produceBlock_consensus now senders order chain).trans
        (prepareOnly_consensus listed counted now)
  | prepare now => exact prepareOnly_consensus listed counted now
  | addTransaction tx => exact counted
  | readAccount address => exact counted
  | restart =>
      obtain ⟨head, frame⟩ := @restart_frame F _ host chain
      rw [step, frame]
      simp only [Chain.new, counted, countingEngine, callsAfter]
      rfl

/-- The tick counter counts the calls of the process, over every run. -/
theorem runSteps_consensus (listed : keypair.address ∈ validators) {chain : Chain F}
    {calls : Nat} (counted : chain.consensus = countingEngine keypair validators config calls)
    (steps : List (NodeStep F))
    : (chain.runSteps host steps).consensus
      = countingEngine keypair validators config (prepareCalls host chain calls steps) := by
  induction steps generalizing chain calls with
  | nil => exact counted
  | cons s rest ih => exact ih (step_consensus listed counted s)

/-- After any run of a validator's process from its start, the headers it produces are
acceptable exactly when it has prepared as many headers as the game tick of the head says
and the next timestamp does not overflow.
-/
theorem producesAcceptable_after_run_iff (sound : host.crypto.SignsRecoverably) {secret : B256}
    (made : Keypair.fromSecretKey host.crypto secret = .ok keypair)
    (listed : keypair.address ∈ validators) (positive : 1 ≤ config.period)
    {start final : Chain F}
    (fresh : start.consensus = PoaConsensus.newWithKeypair keypair validators config)
    {steps : List (NodeStep F)} (ran : final = start.runSteps host steps)
    : ∀ parent, final.head = some parent
        → (final.consensus.ProducesAcceptable host.crypto parent
            ↔ UInt64.ofNat (prepareCalls host start 0 steps) = parent.gameTick
              ∧ parent.timestamp.toNat + config.period.toNat < 2 ^ 64) := by
  intro parent _
  have counted : start.consensus = countingEngine keypair validators config 0 := fresh
  rw [ran, runSteps_consensus listed counted]
  exact (validates_countingEngine listed _).producesAcceptable_iff sound made positive

end Validator

/-- The host of a chain that only knows its genesis block. -/
def genesisHost : Host Milli := .reference [Block.new (.genesis 0) []]

/-- A validator that has just started on top of genesis. -/
def genesisValidator : Chain Milli := .reference genesisHost .reference 9 0

/-- After one header was prepared and dropped, the next header is rejected: it has tick 2. -/
theorem producesAcceptable_fails_after_prepare
    : ¬ ∀ (host : Host Milli) (keypair : Keypair) (secret : B256) (validators : List Address)
          (config : PoaConfig) (start : Chain Milli) (steps : List (NodeStep Milli))
          (parent : BlockHeader),
        host.crypto.SignsRecoverably
        → Keypair.fromSecretKey host.crypto secret = .ok keypair
        → keypair.address ∈ validators
        → 1 ≤ config.period
        → start.consensus = PoaConsensus.newWithKeypair keypair validators config
        → (start.runSteps host steps).head = some parent
        → (start.runSteps host steps).consensus.ProducesAcceptable host.crypto parent := by
  intro claimed
  have acceptable := claimed genesisHost .reference 7 [7] { period := 1 } genesisValidator
    [.prepare 0] (.genesis 0) Crypto.disclosing_signsRecoverably (by decide +kernel)
    (by decide) (by decide) rfl rfl
  have validates
      : (genesisValidator.runSteps genesisHost [.prepare 0]).consensus.Validates .reference :=
    ⟨rfl, rfl, by decide⟩
  have made : Keypair.fromSecretKey Crypto.disclosing 7 = .ok .reference := by decide +kernel
  have agrees := (validates.producesAcceptable_iff Crypto.disclosing_signsRecoverably made
    (by decide)).mp acceptable
  exact absurd agrees.1 (by decide)

/-- A block that another validator could have produced on top of genesis. -/
def importedBlock : Block := Block.following (.genesis 0) []

/-- The validator imports a block, and prepares a header that it drops. -/
def importAndPrepare : List (NodeStep Milli) :=
  [.importBlock importedBlock (.ascending Milli), .prepare 0]

/-- After an import and a dropped header, the next header is acceptable: one call for one block. -/
theorem producesAcceptable_after_import
    : (genesisValidator.runSteps genesisHost importAndPrepare).consensus.ProducesAcceptable
          genesisHost.crypto importedBlock.header
      ↔ UInt64.ofNat (prepareCalls genesisHost genesisValidator 0 importAndPrepare)
            = importedBlock.header.gameTick
          ∧ importedBlock.header.timestamp.toNat + (1 : UInt64).toNat < 2 ^ 64 :=
  @producesAcceptable_after_run_iff Milli _ genesisHost .reference [7] { period := 1 }
    Crypto.disclosing_signsRecoverably 7 (by decide +kernel) (by decide) (by decide)
    genesisValidator (genesisValidator.runSteps genesisHost importAndPrepare) rfl
    importAndPrepare rfl importedBlock.header (by decide +kernel)

end Chain

end VeloChain
