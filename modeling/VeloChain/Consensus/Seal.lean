import VeloChain.Consensus.Poa

/-! What an accepted block says about its signer, and that validators pass the check.
The seal check runs only on blocks with extra data, so an unsealed block is accepted like a
genesis block; a sealed one is accepted only from a validator that names itself.
-/

namespace VeloChain.PoaConsensus

variable {crypto : Crypto}

/-- The extra data is a seal of a validator, which is the beneficiary of the block. -/
structure SealedByValidator (crypto : Crypto) (consensus : PoaConsensus) (block : Block)
    : Prop where
  length : block.header.extraData.length = 65
  signer
    : ∃ signer,
        recoverBlockSigner crypto block = .ok signer
        ∧ signer ∈ consensus.validators
        ∧ signer = block.header.beneficiary

/-- A signer is only recovered from 65 bytes of extra data. -/
theorem length_of_recoverBlockSigner {block : Block} {signer : Address}
    (recovered : recoverBlockSigner crypto block = .ok signer)
    : block.header.extraData.length = 65 := by
  by_contra short
  simp [recoverBlockSigner, short] at recovered

/-- The seal check accepts exactly empty extra data and seals of validators. -/
theorem verifySeal_ok_iff {consensus : PoaConsensus} {block : Block}
    : consensus.verifySeal crypto block = .ok ()
      ↔ block.header.extraData = [] ∨ SealedByValidator crypto consensus block := by
  unfold verifySeal
  by_cases absent : block.header.extraData = []
  · simp [absent]
  · simp only [List.isEmpty_iff, absent, if_false, false_or]
    cases recovered : recoverBlockSigner crypto block with
    | error e =>
        simp only [reduceCtorEq, false_iff]
        rintro ⟨_, signer, found, _⟩
        simp [recovered] at found
    | ok signer =>
        have length := length_of_recoverBlockSigner recovered
        by_cases known : signer ∈ consensus.validators
        · by_cases named : signer = block.header.beneficiary
          · subst named
            simp only [List.contains_eq_mem, known, decide_true, Bool.not_true,
              Bool.false_eq_true, if_false, ne_eq, not_true_eq_false, true_iff]
            exact ⟨length, _, recovered, known, rfl⟩
          · simp only [List.contains_eq_mem, known, decide_true, Bool.not_true,
              Bool.false_eq_true, if_false, named, ne_eq, not_false_eq_true, if_true,
              reduceCtorEq, false_iff]
            rintro ⟨_, other, found, _, same⟩
            obtain rfl := Except.ok.inj (recovered.symm.trans found)
            exact named same
        · simp only [List.contains_eq_mem, known, decide_false, Bool.not_false, if_true,
            reduceCtorEq, false_iff]
          rintro ⟨_, other, found, member, _⟩
          obtain rfl := Except.ok.inj (recovered.symm.trans found)
          exact known member

/-- An accepted block above genesis is unsealed or carries the seal of a validator that is
its beneficiary.
-/
theorem verifyBlock_sealed {consensus : PoaConsensus} {block : Block} {parent : BlockHeader}
    (above : 0 < block.header.number)
    (accepted : consensus.verifyBlock crypto block parent = .ok ())
    : block.header.extraData = [] ∨ SealedByValidator crypto consensus block := by
  unfold verifyBlock at accepted
  cases checked : verifyHeader crypto block.header parent with
  | error e => simp [checked] at accepted
  | ok =>
      have notGenesis : block.header.number ≠ 0 := by
        intro zero
        simp [zero] at above
      simp only [checked, notGenesis, if_false] at accepted
      exact verifySeal_ok_iff.mp accepted

/-- The engine signs with `keypair`, whose address is in the validator set. -/
structure Validates (consensus : PoaConsensus) (keypair : Keypair) : Prop where
  signs : consensus.keypair = some keypair
  localAddress : consensus.localAddress = some keypair.address
  listed : keypair.address ∈ consensus.validators

theorem Validates.isValidator {consensus : PoaConsensus} {keypair : Keypair}
    (validates : consensus.Validates keypair)
    : consensus.isValidator = true := by
  simp only [PoaConsensus.isValidator, validates.localAddress, List.contains_eq_mem,
    validates.listed, decide_true]

/-- A validator always gets a header, and its tick counter advances by one. -/
theorem Validates.prepareHeader {consensus : PoaConsensus} {keypair : Keypair}
    (validates : consensus.Validates keypair) (now : UInt64) (parent : BlockHeader)
    : consensus.prepareHeader crypto now parent
      = (.ok (nextHeader crypto now parent keypair.address consensus.config.period
            (consensus.gameTick + 1)),
          { consensus with gameTick := consensus.gameTick + 1 }) := by
  simp only [PoaConsensus.prepareHeader, validates.localAddress, validates.isValidator,
    Bool.not_true, Bool.false_eq_true, if_false, advanceTick]

/-- The words and the recovery id of a seal are read back from its 65 bytes. -/
theorem recoverBlockSigner_seal_iff {block : Block} (bare : block.header.extraData = [])
    {r s : B256} {recid : UInt8} {signer : Address}
    : recoverBlockSigner crypto
        { block with
          header := { block.header with extraData := hashSlice r ++ hashSlice s ++ [recid] } }
      = .ok signer
      ↔ recoverSigner crypto (block.header.hash crypto) recid.toUInt64 r s = .ok signer := by
  have length : (hashSlice r ++ hashSlice s ++ [recid]).length = 65 := by simp
  have first : (hashSlice r ++ hashSlice s ++ [recid]).take 32 = hashSlice r := by
    rw [List.append_assoc]
    exact List.take_left' (length_hashSlice r)
  have second
      : ((hashSlice r ++ hashSlice s ++ [recid]).drop 32).take 32 = hashSlice s := by
    rw [List.append_assoc, List.drop_left' (length_hashSlice r)]
    exact List.take_left' (length_hashSlice s)
  have last : (hashSlice r ++ hashSlice s ++ [recid]).getD 64 0 = recid := by
    rw [List.getD_eq_getElem?_getD, List.getElem?_append_right (by simp)]
    simp
  have cleared : { block.header with extraData := [] } = block.header := by rw [← bare]
  simp only [recoverBlockSigner, length, ne_eq, not_true_eq_false, if_false, first, second,
    last, hashFromSlice_hashSlice, cleared]
  cases recoverSigner crypto (block.header.hash crypto) recid.toUInt64 r s with
  | error e => simp
  | ok found => simp

/-- Sealing a bare block of the own address gives a block whose seal is accepted. -/
theorem Validates.sealBlock {consensus : PoaConsensus} {keypair : Keypair}
    (validates : consensus.Validates keypair) (sound : crypto.SignsRecoverably) {secret : B256}
    (made : Keypair.fromSecretKey crypto secret = .ok keypair) (block : Block)
    (bare : block.header.extraData = [])
    (own : block.header.beneficiary = keypair.address)
    : ∃ extraData,
        consensus.sealBlock crypto block
          = .ok { block with header := { block.header with extraData } }
        ∧ consensus.verifySeal crypto { block with header := { block.header with extraData } }
          = .ok () := by
  obtain ⟨r, s, recid, signed, recovered⟩ := sound.recoverSigner made (block.header.hash crypto)
  refine ⟨hashSlice r ++ hashSlice s ++ [recid], ?_, ?_⟩
  · simp only [PoaConsensus.sealBlock, validates.signs, signed]
  · exact verifySeal_ok_iff.mpr (Or.inr ⟨by simp, keypair.address,
      (recoverBlockSigner_seal_iff bare).mpr recovered, validates.listed, own.symm⟩)

/-- A header that follows the genesis header and carries no seal. -/
def unsealedHeader (crypto : Crypto) : BlockHeader :=
  { BlockHeader.genesis 0 with
    parentHash := (BlockHeader.genesis 0).hash crypto
    number := 1
    timestamp := 1
    gameTick := 1 }

/-- The empty validator set accepts an unsealed block. -/
theorem verifyBlock_accepts_unsealed
    : ¬ ∀ (crypto : Crypto) (consensus : PoaConsensus) (parent : BlockHeader) (block : Block),
        0 < block.header.number
        → consensus.verifyBlock crypto block parent = .ok ()
        → SealedByValidator crypto consensus block := by
  intro claimed
  have sealed := claimed .disclosing (newReadonly [] { period := 1 }) (BlockHeader.genesis 0)
    (Block.new (unsealedHeader .disclosing) []) (by decide) (by decide +kernel)
  exact absurd sealed.length (by decide)

/-- A block of the validator with secret key 7 on top of genesis. -/
def sealedBlock : Block :=
  { header :=
      { unsealedHeader .disclosing with
        beneficiary := 7
        extraData := hashSlice 7 ++ hashSlice 0 ++ [0] }
    body := { transactions := [] } }

theorem verifyBlock_sealed_by_seven
    : sealedBlock.header.extraData = []
      ∨ SealedByValidator .disclosing (newReadonly [7] { period := 1 }) sealedBlock :=
  @verifyBlock_sealed _ _ _ (BlockHeader.genesis 0) (by decide) (by decide +kernel)

end VeloChain.PoaConsensus
