import VeloChain.Consensus.Seal

/-! How many encodings a signature has.
The recovery id may be written as it is or with 27 added, so that a seal above genesis has two
accepted encodings: the last byte of one is the id, the last byte of the other the id plus 27.
-/

namespace VeloChain

/-- Different recovery ids give different addresses. -/
def Crypto.DistinctRecovery (crypto : Crypto) : Prop :=
  ∀ hash r s (i j : UInt8) key key', i < 4 → j < 4 →
    crypto.recoverFromPrehash hash r s i = .ok key →
      crypto.recoverFromPrehash hash r s j = .ok key' →
        publicKeyToAddress crypto key = publicKeyToAddress crypto key' → i = j

/-- The recovery id in both conventions. -/
def recoveryValues : List UInt64 := [0, 1, 2, 3, 27, 28, 29, 30]

/-- The recovery id that a value stands for, after it has been narrowed to a byte. -/
def recoveryId (v : UInt64) : Option UInt8 :=
  let recid := (if v ≥ 27 then v - 27 else v).toUInt8
  if recid ≥ 4 then none else some recid

/-- Only the values of both conventions are accepted. -/
def RejectsOtherValues (crypto : Crypto) : Prop :=
  ∀ hash v r s, v ∉ recoveryValues → ∃ e, recoverSigner crypto hash v r s = .error e

namespace PoaConsensus

variable {crypto : Crypto}

/-- A block is accepted with the given extra data. -/
def AcceptsSeal (crypto : Crypto) (consensus : PoaConsensus) (block : Block)
    (parent : BlockHeader) (extraData : Bytes) : Prop :=
  consensus.verifyBlock crypto { block with header := { block.header with extraData } } parent
  = .ok ()

/-- No two values of the extra data with one signature are accepted. -/
def SealsUnique (crypto : Crypto) : Prop :=
  ∀ (consensus : PoaConsensus) (block : Block) (parent : BlockHeader) (r s : B256),
    block.header.extraData = [] →
      ∀ left right : Bytes,
        hashSlice r ++ hashSlice s <+: left → hashSlice r ++ hashSlice s <+: right →
          consensus.AcceptsSeal crypto block parent left →
            consensus.AcceptsSeal crypto block parent right → left = right

/-- The values of the extra data with one signature that are accepted are the two encodings of
one recovery id, or none.
-/
def SealsPaired (crypto : Crypto) (consensus : PoaConsensus) (block : Block)
    (parent : BlockHeader) (r s : B256) : Prop :=
  let accepted (extraData : Bytes) : Prop :=
    hashSlice r ++ hashSlice s <+: extraData
    ∧ consensus.AcceptsSeal crypto block parent extraData
  (∀ extraData, ¬ accepted extraData)
  ∨ ∃ recid : UInt8,
      recid < 4
      ∧ ∀ extraData,
          accepted extraData
          ↔ extraData = hashSlice r ++ hashSlice s ++ [recid]
            ∨ extraData = hashSlice r ++ hashSlice s ++ [recid + 27]

end PoaConsensus

-----------------------------------------------------------------------------------------
-- Recovery ids
-----------------------------------------------------------------------------------------

/-- A signer is recovered exactly where the value stands for an id with which its key is. -/
theorem recoverSigner_ok_iff {crypto : Crypto} {hash r s : B256} {v : UInt64} {signer : Address}
    : recoverSigner crypto hash v r s = .ok signer
      ↔ crypto.signatureFromBytes r s = .ok ()
        ∧ ∃ recid key,
            recoveryId v = some recid
            ∧ crypto.recoverFromPrehash hash r s recid = .ok key
            ∧ publicKeyToAddress crypto key = signer := by
  unfold recoverSigner recoveryId
  cases parsed : crypto.signatureFromBytes r s with
  | error e => simp
  | ok =>
      simp only [true_and]
      generalize (if v ≥ 27 then v - 27 else v).toUInt8 = recid
      split
      next => simp
      next =>
        cases recovered : crypto.recoverFromPrehash hash r s recid with
        | error e => simp [recovered]
        | ok key => simp [recovered]

/-- An id is what is left of the value, or of the value less 27. -/
theorem recoveryId_eq_some_iff {v : UInt64} {recid : UInt8}
    : recoveryId v = some recid
      ↔ recid < 4
        ∧ (if 27 ≤ v.toNat then v.toNat - 27 else v.toNat) % 256 = recid.toNat := by
  have narrowed
      : (if v ≥ 27 then v - 27 else v).toUInt8.toNat
        = (if 27 ≤ v.toNat then v.toNat - 27 else v.toNat) % 256 := by
    by_cases legacy : v ≥ 27
    · have large : 27 ≤ v.toNat := UInt64.le_iff_toNat_le.mp legacy
      simp only [legacy, large, if_true, UInt64.toNat_toUInt8, UInt64.toNat_sub_of_le _ _ legacy]
      rfl
    · have small : ¬ 27 ≤ v.toNat := fun large => legacy (UInt64.le_iff_toNat_le.mpr large)
      simp only [legacy, small, if_false, UInt64.toNat_toUInt8]
  unfold recoveryId
  rw [← narrowed]
  generalize (if v ≥ 27 then v - 27 else v).toUInt8 = found
  simp only [UInt8.toNat_inj]
  split
  next large =>
    simp only [reduceCtorEq, false_iff]
    rintro ⟨small, rfl⟩
    exact UInt8.not_le.mpr small large
  next small =>
    rw [Option.some.injEq]
    exact ⟨fun same => ⟨same ▸ UInt8.not_le.mp small, same⟩, fun both => both.2⟩

/-- A byte stands for an id in exactly two ways. -/
theorem recoveryId_toUInt64_iff {v recid : UInt8}
    : recoveryId v.toUInt64 = some recid ↔ recid < 4 ∧ (v = recid ∨ v = recid + 27) := by
  rw [recoveryId_eq_some_iff, UInt8.toNat_toUInt64]
  apply and_congr_right
  intro small
  have below : recid.toNat < 4 := UInt8.lt_iff_toNat_lt.mp small
  have bound := v.toNat_lt
  rw [← UInt8.toNat_inj, ← UInt8.toNat_inj, UInt8.toNat_add]
  simp only [UInt8.toNat_ofNat]
  split <;> omega

/-- A value outside both conventions stands for no id, unless it is 27 more than one that the
byte cuts off.
-/
theorem recoveryId_eq_none {v : UInt64} (other : v ∉ recoveryValues)
    (kept : v.toNat < 27 ∨ 4 ≤ (v.toNat - 27) % 256)
    : recoveryId v = none := by
  cases found : recoveryId v with
  | none => rfl
  | some recid =>
      obtain ⟨small, same⟩ := recoveryId_eq_some_iff.mp found
      have below : recid.toNat < 4 := UInt8.lt_iff_toNat_lt.mp small
      exfalso
      apply other
      simp only [recoveryValues, List.mem_cons, List.not_mem_nil, or_false,
        ← UInt64.toNat_inj, UInt64.toNat_ofNat]
      split at same <;> omega

namespace PoaConsensus

-----------------------------------------------------------------------------------------
-- Seals
-----------------------------------------------------------------------------------------

variable {crypto : Crypto} {consensus : PoaConsensus} {block : Block} {parent : BlockHeader}
  {r s : B256}

/-- Extra data with a signature is accepted exactly where one byte follows, from which the
beneficiary is recovered, and the beneficiary is a validator.
-/
theorem acceptsSeal_iff (bare : block.header.extraData = []) (above : block.header.number ≠ 0)
    {extraData : Bytes} (carries : hashSlice r ++ hashSlice s <+: extraData)
    : consensus.AcceptsSeal crypto block parent extraData
      ↔ verifyHeader crypto block.header parent = .ok ()
        ∧ block.header.beneficiary ∈ consensus.validators
        ∧ ∃ v : UInt8,
            extraData = hashSlice r ++ hashSlice s ++ [v]
            ∧ recoverSigner crypto (block.header.hash crypto) v.toUInt64 r s
              = .ok block.header.beneficiary := by
  obtain ⟨rest, rfl⟩ := carries
  have checked (extraData : Bytes)
      : consensus.AcceptsSeal crypto block parent extraData
        ↔ verifyHeader crypto block.header parent = .ok ()
          ∧ consensus.verifySeal crypto
              { block with header := { block.header with extraData } } = .ok () := by
    have unsealed
        : verifyHeader crypto { block.header with extraData } parent
          = verifyHeader crypto block.header parent :=
      rfl
    simp only [AcceptsSeal, verifyBlock, unsealed, above, if_false]
    cases verifyHeader crypto block.header parent with
    | error e => simp
    | ok => simp
  rw [checked, verifySeal_ok_iff]
  apply and_congr_right
  intro _
  constructor
  · rintro (absent | ⟨length, signer, recovered, known, rfl⟩)
    · simpa using congrArg List.length absent
    · obtain ⟨v, rfl⟩ : ∃ v, rest = [v] := by
        apply List.length_eq_one_iff.mp
        simp only [List.length_append, length_hashSlice] at length
        omega
      exact ⟨known, v, rfl, (recoverBlockSigner_seal_iff bare).mp recovered⟩
  · rintro ⟨known, v, same, recovered⟩
    rw [same]
    exact Or.inr ⟨by simp, _, (recoverBlockSigner_seal_iff bare).mpr recovered, known, rfl⟩

/-- The seals of a block above genesis are paired: the ids of two accepted ones recover the same
beneficiary, so they are the same id, and an id is written in two ways.
-/
theorem sealsPaired (distinct : crypto.DistinctRecovery) (bare : block.header.extraData = [])
    (above : block.header.number ≠ 0)
    : SealsPaired crypto consensus block parent r s := by
  unfold SealsPaired
  simp only
  by_cases refused
    : ∀ extraData,
        ¬ (hashSlice r ++ hashSlice s <+: extraData
          ∧ consensus.AcceptsSeal crypto block parent extraData)
  · exact Or.inl refused
  · right
    simp only [not_forall, not_not] at refused
    obtain ⟨extraData, carries, accepted⟩ := refused
    obtain ⟨checked, known, v, -, recovered⟩ := (acceptsSeal_iff bare above carries).mp accepted
    obtain ⟨parsed, recid, key, stands, found, named⟩ := recoverSigner_ok_iff.mp recovered
    have small := (recoveryId_toUInt64_iff.mp stands).1
    refine ⟨recid, small, fun extraData => ⟨?_, ?_⟩⟩
    · rintro ⟨carries', accepted'⟩
      obtain ⟨-, -, v', rfl, recovered'⟩ := (acceptsSeal_iff bare above carries').mp accepted'
      obtain ⟨-, recid', key', stands', found', named'⟩ := recoverSigner_ok_iff.mp recovered'
      obtain ⟨small', written⟩ := recoveryId_toUInt64_iff.mp stands'
      obtain rfl :=
        distinct _ r s recid recid' key key' small small' found found' (named.trans named'.symm)
      rcases written with rfl | rfl
      · exact Or.inl rfl
      · exact Or.inr rfl
    · intro written
      have spelled
          : ∃ v', (v' = recid ∨ v' = recid + 27)
              ∧ extraData = hashSlice r ++ hashSlice s ++ [v'] :=
        written.elim (fun same => ⟨recid, Or.inl rfl, same⟩)
          (fun same => ⟨recid + 27, Or.inr rfl, same⟩)
      obtain ⟨v', ways, rfl⟩ := spelled
      have carries' := List.prefix_append (hashSlice r ++ hashSlice s) [v']
      refine ⟨carries', (acceptsSeal_iff bare above carries').mpr ⟨checked, known, v', rfl, ?_⟩⟩
      exact recoverSigner_ok_iff.mpr
        ⟨parsed, recid, key, recoveryId_toUInt64_iff.mpr ⟨small, ways⟩, found, named⟩

end PoaConsensus

/-- Values outside both conventions are rejected, unless what is left of them after taking 27 off
fits the ids only in its last byte; and the seals of all blocks above genesis are paired.
-/
theorem signatureEncodings {crypto : Crypto} (distinct : crypto.DistinctRecovery)
    : (∀ hash (v : UInt64) r s,
        v ∉ recoveryValues → v.toNat < 27 ∨ 4 ≤ (v.toNat - 27) % 256 →
          ∃ e, recoverSigner crypto hash v r s = .error e)
      ∧ ∀ (consensus : PoaConsensus) (block : Block) (parent : BlockHeader) (r s : B256),
          block.header.extraData = [] → block.header.number ≠ 0 →
            consensus.SealsPaired crypto block parent r s := by
  constructor
  · intro hash v r s other kept
    cases recovered : recoverSigner crypto hash v r s with
    | error e => exact ⟨e, rfl⟩
    | ok signer =>
        obtain ⟨-, recid, -, stands, -⟩ := recoverSigner_ok_iff.mp recovered
        cases (recoveryId_eq_none other kept).symm.trans stands
  · intro consensus block parent r s bare above
    exact PoaConsensus.sealsPaired distinct bare above

section FirstIdOnly

/-- Keys are recovered with the id 0 only: the `r` word of the signature. -/
def Crypto.firstIdOnly : Crypto :=
  { Crypto.disclosing with
    recoverFromPrehash := fun _ r _ recid =>
      if recid = 0 then .ok (hashSlice r) else .error "signature error" }

theorem Crypto.firstIdOnly_distinctRecovery : Crypto.firstIdOnly.DistinctRecovery := by
  intro hash r s i j key key' _ _ found found' _
  have first {recid : UInt8} {key : Bytes}
      (found : Crypto.firstIdOnly.recoverFromPrehash hash r s recid = .ok key)
      : recid = 0 := by
    by_contra other
    simp [firstIdOnly, other] at found
  exact (first found).trans (first found').symm

/-- A block of the validator with secret key 7 on top of genesis, not sealed yet. -/
def blockOfSeven : Block :=
  Block.new { PoaConsensus.unsealedHeader .firstIdOnly with beneficiary := 7 } []

theorem signatureEncodings_ofSeven
    : let consensus := PoaConsensus.newReadonly [7] { period := 1 }
      (∃ e, recoverSigner .firstIdOnly 0 31 7 0 = .error e)
      ∧ consensus.SealsPaired .firstIdOnly blockOfSeven (BlockHeader.genesis 0) 7 0 :=
  have encodings := signatureEncodings Crypto.firstIdOnly_distinctRecovery
  ⟨encodings.1 0 31 7 0 (by decide) (Or.inr (by decide)),
    encodings.2 _ blockOfSeven _ 7 0 rfl (by decide)⟩

/-- The value 283 is accepted like 27, and the seals of one signature that end in 0 and in 27 are
both accepted.
-/
theorem signatureEncodings_notUnique
    : Crypto.firstIdOnly.DistinctRecovery
      ∧ ¬ RejectsOtherValues .firstIdOnly
      ∧ ¬ PoaConsensus.SealsUnique .firstIdOnly := by
  refine ⟨Crypto.firstIdOnly_distinctRecovery, fun rejects => ?_, fun unique => ?_⟩
  · obtain ⟨e, refused⟩ := rejects 0 283 7 0 (by decide)
    have recovered : recoverSigner .firstIdOnly 0 283 7 0 = .ok 7 := by decide +kernel
    cases recovered.symm.trans refused
  · have same :=
      unique (.newReadonly [7] { period := 1 }) blockOfSeven (BlockHeader.genesis 0) 7 0 rfl
        (hashSlice 7 ++ hashSlice 0 ++ [0]) (hashSlice 7 ++ hashSlice 0 ++ [27])
        (List.prefix_append _ _) (List.prefix_append _ _)
        (by unfold PoaConsensus.AcceptsSeal; decide +kernel)
        (by unfold PoaConsensus.AcceptsSeal; decide +kernel)
    exact absurd same (by decide)

end FirstIdOnly

end VeloChain
