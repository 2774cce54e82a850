import VeloChain.Primitives.Block

/-! Proof-of-Authority consensus: validators sign the blocks they produce.
Rejections carry the messages of the source. The wall clock is an argument of
`prepareHeader`.
-/

namespace VeloChain

inductive ConsensusError
  | invalidHeader (message : String)
  | unknownValidator (address : String)
  | notValidator
  | invalidSignature (message : String)
  | sealError (message : String)
  deriving DecidableEq

instance : ToString ConsensusError where
  toString
    | .invalidHeader message => s!"Invalid header: {message}"
    | .unknownValidator address => s!"Unknown validator: {address}"
    | .notValidator => "Not a validator"
    | .invalidSignature message => s!"Invalid signature: {message}"
    | .sealError message => s!"Seal error: {message}"

/-- PoA consensus configuration: the block period in seconds. -/
structure PoaConfig where
  period : UInt64

/-- Proof-of-Authority consensus engine. -/
structure PoaConsensus where
  keypair : Option Keypair
  localAddress : Option Address
  validators : List Address
  config : PoaConfig
  gameTick : UInt64

namespace PoaConsensus

/-- Create a new PoA consensus engine with a validator keypair. -/
def newWithKeypair (keypair : Keypair) (validators : List Address) (config : PoaConfig)
    : PoaConsensus :=
  { keypair := some keypair
    localAddress := some keypair.address
    validators
    config
    gameTick := 0 }

/-- Create a new PoA consensus engine without a validator key (read-only node). -/
def newReadonly (validators : List Address) (config : PoaConfig) : PoaConsensus :=
  { keypair := none, localAddress := none, validators, config, gameTick := 0 }

/-- Determine which validator should produce the block at the given height. -/
def proposerForHeight (consensus : PoaConsensus) (height : UInt64) : Option Address :=
  if consensus.validators.isEmpty then none
  else consensus.validators[height.toNat % consensus.validators.length]?

/-- Check if we are the proposer for the given height. -/
def isOurTurn (consensus : PoaConsensus) (height : UInt64) : Bool :=
  match consensus.localAddress, consensus.proposerForHeight height with
  | some localAddress, some proposer => localAddress == proposer
  | _, _ => false

/-- Advance the game tick. -/
def advanceTick (consensus : PoaConsensus) : UInt64 × PoaConsensus :=
  (consensus.gameTick + 1, { consensus with gameTick := consensus.gameTick + 1 })

def isValidator (consensus : PoaConsensus) : Bool :=
  match consensus.localAddress with
  | some address => consensus.validators.contains address
  | none => false

variable (crypto : Crypto)

/-- Recover the signer address from a sealed block's extra data: the words R and S and the
byte V. The signature covers the header with empty extra data.
-/
def recoverBlockSigner (block : Block) : Except ConsensusError Address :=
  let extra := block.header.extraData
  if extra.length ≠ 65 then
    .error (.invalidSignature
      s!"extra_data must be 65 bytes for a sealed block, got {extra.length}")
  else
    let r := hashFromSlice (extra.take 32)
    let s := hashFromSlice ((extra.drop 32).take 32)
    let v := (extra.getD 64 0).toUInt64
    let unsignedHash := { block.header with extraData := [] }.hash crypto
    match recoverSigner crypto unsignedHash v r s with
    | .error e => .error (.invalidSignature s!"Recovery failed: {e}")
    | .ok signer => .ok signer

/-- Validate a header against its parent. -/
def verifyHeader (header parent : BlockHeader) : Except ConsensusError Unit :=
  if header.number ≠ parent.number + 1 then
    .error (.invalidHeader
      s!"Block number mismatch: expected {parent.number + 1}, got {header.number}")
  else if header.parentHash ≠ parent.hash crypto then
    .error (.invalidHeader "Parent hash mismatch")
  else if header.timestamp ≤ parent.timestamp then
    .error (.invalidHeader "Timestamp must be after parent")
  else if header.gameTick ≠ parent.gameTick + 1 then
    .error (.invalidHeader
      s!"Game tick mismatch: expected {parent.gameTick + 1}, got {header.gameTick}")
  else if header.difficulty ≠ 1 then .error (.invalidHeader "PoA difficulty must be 1")
  else .ok ()

/-- Verify a block seal against the validator set and the beneficiary, if it is present. -/
def verifySeal (consensus : PoaConsensus) (block : Block) : Except ConsensusError Unit :=
  -- an unsealed block passes
  if block.header.extraData.isEmpty then .ok ()
  else
    match recoverBlockSigner crypto block with
    | .error e => .error e
    | .ok signer =>
        if !consensus.validators.contains signer then
          .error (.unknownValidator (debugAddress signer))
        else if signer ≠ block.header.beneficiary then
          .error (.invalidSignature
            (s!"Signer {debugAddress signer} does not match beneficiary "
              ++ debugAddress block.header.beneficiary))
        else .ok ()

/-- Validate a block: its header, and unless it is a genesis block its seal. -/
def verifyBlock (consensus : PoaConsensus) (block : Block) (parent : BlockHeader)
    : Except ConsensusError Unit :=
  match verifyHeader crypto block.header parent with
  | .error e => .error e
  | .ok () => if block.header.number = 0 then .ok () else consensus.verifySeal crypto block

/-- The header that `producer` prepares on top of `parent`; roots are filled in later. -/
def nextHeader (now : UInt64) (parent : BlockHeader) (producer : Address)
    (period gameTick : UInt64) : BlockHeader :=
  { parentHash := parent.hash crypto
    ommersHash := 0
    beneficiary := producer
    stateRoot := 0
    transactionsRoot := 0
    receiptsRoot := 0
    gameStateRoot := 0
    logsBloom := 0
    difficulty := 1
    number := parent.number + 1
    gasLimit := defaultBlockGasLimit
    gasUsed := 0
    timestamp := max now (parent.timestamp + period)
    gameTick
    extraData := []
    mixHash := 0
    nonce := 0
    baseFeePerGas := parent.baseFeePerGas }

/-- Prepare the next block header; the local tick counter advances. That it is not our turn is
only logged.
-/
def prepareHeader (now : UInt64) (parent : BlockHeader) (consensus : PoaConsensus)
    : Except ConsensusError BlockHeader × PoaConsensus :=
  match consensus.localAddress with
  | none => (.error .notValidator, consensus)
  | some localAddress =>
      if !consensus.isValidator then (.error .notValidator, consensus)
      else
        -- the tick counts the calls, not the blocks of the chain
        let (nextTick, consensus) := consensus.advanceTick
        (.ok (nextHeader crypto now parent localAddress consensus.config.period nextTick),
          consensus)

/-- Seal a block: sign its header hash with the validator key. -/
def sealBlock (block : Block) (consensus : PoaConsensus) : Except ConsensusError Block :=
  match consensus.keypair with
  | none => .error .notValidator
  | some keypair =>
      match keypair.signHash crypto (block.header.hash crypto) with
      | .error e => .error (.sealError s!"Signing failed: {e}")
      | .ok (r, s, recid) =>
          .ok { block with
            header := { block.header with extraData := hashSlice r ++ hashSlice s ++ [recid] } }

/-- The rules a header keeps towards its parent; both successors wrap around. -/
structure FollowsParent (header parent : BlockHeader) : Prop where
  number : header.number = parent.number + 1
  parentHash : header.parentHash = parent.hash crypto
  timestamp : parent.timestamp < header.timestamp
  gameTick : header.gameTick = parent.gameTick + 1
  difficulty : header.difficulty = 1

variable {crypto}

/-- The header check accepts exactly the headers that keep the rules. -/
theorem verifyHeader_ok_iff {header parent : BlockHeader}
    : verifyHeader crypto header parent = .ok () ↔ FollowsParent crypto header parent := by
  unfold verifyHeader
  constructor
  · intro accepted
    split at accepted
    next => simp at accepted
    next number =>
      split at accepted
      next => simp at accepted
      next parentHash =>
        split at accepted
        next => simp at accepted
        next timestamp =>
          split at accepted
          next => simp at accepted
          next gameTick =>
            split at accepted
            next => simp at accepted
            next difficulty =>
              exact ⟨not_not.mp number, not_not.mp parentHash, UInt64.not_le.mp timestamp,
                not_not.mp gameTick, not_not.mp difficulty⟩
  · intro rules
    simp only [rules.number, rules.parentHash, rules.gameTick, rules.difficulty, ne_eq,
      not_true_eq_false, if_false, UInt64.not_le.mpr rules.timestamp]

theorem verifyBlock_header {consensus : PoaConsensus} {block : Block} {parent : BlockHeader}
    (accepted : consensus.verifyBlock crypto block parent = .ok ())
    : FollowsParent crypto block.header parent := by
  unfold verifyBlock at accepted
  cases checked : verifyHeader crypto block.header parent with
  | error e => simp [checked] at accepted
  | ok => exact verifyHeader_ok_iff.mp checked

/-- Timestamps grow, so the number of the next header does not wrap around. -/
theorem FollowsParent.aged {header parent : BlockHeader}
    (follows : FollowsParent crypto header parent) (aged : parent.number ≤ parent.timestamp)
    : parent.number < header.number ∧ header.number ≤ header.timestamp := by
  have earlier := UInt64.le_iff_toNat_le.mp aged
  have later := UInt64.lt_iff_toNat_lt.mp follows.timestamp
  have bound := header.timestamp.toNat_lt
  have number : header.number.toNat = parent.number.toNat + 1 := by
    rw [follows.number, UInt64.toNat_add]
    exact Nat.mod_eq_of_lt (Nat.lt_of_le_of_lt (Nat.succ_le_of_lt (earlier.trans_lt later)) bound)
  exact ⟨UInt64.lt_iff_toNat_lt.mpr (by omega), UInt64.le_iff_toNat_le.mpr (by omega)⟩

/-- A block that keeps the header rules and passes the seal check is accepted. -/
theorem verifyBlock_of_followsParent {consensus : PoaConsensus} {block : Block}
    {parent : BlockHeader} (rules : FollowsParent crypto block.header parent)
    (sealed : consensus.verifySeal crypto block = .ok ())
    : consensus.verifyBlock crypto block parent = .ok () := by
  unfold verifyBlock
  rw [verifyHeader_ok_iff.mpr rules]
  by_cases genesis : block.header.number = 0
  · simp only [genesis, if_true]
  · simp only [genesis, if_false, sealed]

end PoaConsensus

end VeloChain
