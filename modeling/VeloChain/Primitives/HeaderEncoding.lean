import VeloChain.Primitives.Block

/-! The header encoding is framed by its length and determines every field. -/

namespace VeloChain

open Bytes

section Fields

theorem bigEndian_injective {w width : Nat} (fits : 2 ^ w ≤ 256 ^ width)
    : Function.Injective (fun value : BitVec w => bigEndian width value.toNat) := by
  intro left right same
  exact BitVec.eq_of_toNat_eq (bigEndian_inj (Nat.lt_of_lt_of_le left.isLt fits)
    (Nat.lt_of_lt_of_le right.isLt fits) same)

/-- A fixed array of bytes. -/
theorem fixedBytes_delimits {w width : Nat} (fits : 2 ^ w ≤ 256 ^ width)
    (notSingle : width ≠ 1)
    : SelfDelimiting (fun value : BitVec w => rlpString (bigEndian width value.toNat)) :=
  .rlpString (bigEndian_injective fits) (fun _ => length_bigEndian _ _) notSingle

theorem hash_delimits : SelfDelimiting (fun hash => rlpString (hashSlice hash)) :=
  fixedBytes_delimits (by decide) (by decide)

theorem address_delimits : SelfDelimiting (fun address => rlpString (addressSlice address)) :=
  fixedBytes_delimits (by decide) (by decide)

theorem bloom_delimits
    : SelfDelimiting (fun bloom : BitVec 2048 => rlpString (bigEndian 256 bloom.toNat)) :=
  fixedBytes_delimits (by decide +kernel) (by decide)

theorem nonce_delimits
    : SelfDelimiting (fun nonce : BitVec 64 => rlpString (bigEndian 8 nonce.toNat)) :=
  fixedBytes_delimits (by decide) (by decide)

theorem uint64_delimits : SelfDelimiting (fun value : UInt64 => rlpUint value.toNat) :=
  .rlpUint (fun _ _ => UInt64.toNat_inj.mp)
    (fun value => Nat.lt_of_lt_of_le value.toNat_lt (by decide))

theorem uint256_delimits : SelfDelimiting (fun value : U256 => rlpUint value.toNat) :=
  .rlpUint (fun _ _ => BitVec.eq_of_toNat_eq)
    (fun value => Nat.lt_of_lt_of_le value.isLt (by decide))

theorem byte_delimits : SelfDelimiting (fun value : UInt8 => rlpUint value.toNat) :=
  .rlpUint (fun _ _ => UInt8.toNat_inj.mp)
    (fun value => Nat.lt_of_lt_of_le value.toNat_lt (by decide))

/-- A vector of bytes, encoded as a list of integers: its place in the header is followed by
fields that vary little in length.
-/
theorem byteVector_delimits {left right : Bytes} {rest rest' : Bytes}
    (near : rest.length ≤ rest'.length + 64) (near' : rest'.length ≤ rest.length + 64)
    (same
      : rlpList (left.map (fun byte => rlpUint byte.toNat)) ++ rest
        = rlpList (right.map (fun byte => rlpUint byte.toNat)) ++ rest')
    : left = right ∧ rest = rest' := by
  obtain ⟨items, rests⟩ := rlpList_append_inj near near' same
  rw [← List.flatMap_def, ← List.flatMap_def] at items
  exact ⟨byte_delimits.flatMap_injective (fun _ => rlpString_ne_nil _) items, rests⟩

/-- The last field, which may be missing. -/
theorem optionalUint_injective
    : Function.Injective (fun fee : Option UInt64 =>
        (fee.map (fun fee => rlpUint fee.toNat)).toList.flatten) := by
  have nonempty (fee : UInt64) : rlpUint fee.toNat ≠ [] := rlpString_ne_nil _
  intro left right same
  cases left with
  | none =>
      cases right with
      | none => rfl
      | some fee => exact absurd (by simpa using same.symm) (nonempty fee)
  | some fee =>
      cases right with
      | none => exact absurd (by simpa using same) (nonempty fee)
      | some other =>
          simp only [Option.map_some, Option.toList_some, List.flatten_singleton] at same
          obtain ⟨equal, _⟩ := uint64_delimits fee other [] [] (by simpa using same)
          rw [equal]

theorem length_optionalUint (fee : Option UInt64)
    : (fee.map (fun fee => rlpUint fee.toNat)).toList.flatten.length ≤ 9 := by
  cases fee with
  | none => simp
  | some fee =>
      have digits : byteLength fee.toNat ≤ 8 :=
        byteLength_le_iff.mpr (Nat.lt_of_lt_of_le fee.toNat_lt (by decide))
      simp only [Option.map_some, Option.toList_some, List.flatten_singleton, length_rlpUint,
        rlpUintLength, lengthOfLength]
      split
      next => decide
      next => split <;> omega

end Fields

namespace BlockHeader

/-- The declared payload length is the length of the encoded fields, for every combination of
their sizes.
-/
theorem length_flatten_fieldEncodings (header : BlockHeader)
    : header.fieldEncodings.flatten.length = header.rlpPayloadLength := by
  have fees
      : (header.baseFeePerGas.map (fun fee => rlpUint fee.toNat)).toList.flatten.length
        = (header.baseFeePerGas.map (fun fee => rlpUintLength fee.toNat)).getD 0 := by
    cases header.baseFeePerGas <;> simp
  unfold fieldEncodings rlpPayloadLength
  rw [List.flatten_append, List.length_append, fees, List.length_flatten]
  simp only [List.map_cons, List.map_nil, List.sum_cons, List.sum_nil, length_rlpString,
    length_rlpUint, length_rlpList, List.map_map, Function.comp_def, Nat.add_zero]
  omega

theorem length_encode (header : BlockHeader) : header.encode.length = header.length := by
  rw [encode, List.length_append, length_rlpPrefix, length_flatten_fieldEncodings, length,
    Nat.add_comm]

/-- The fields after the extra data vary little in length. -/
theorem length_afterExtraData (header : BlockHeader)
    : (rlpString (hashSlice header.mixHash)
        ++ (rlpString (bigEndian 8 header.nonce.toNat)
          ++ (header.baseFeePerGas.map (fun fee => rlpUint fee.toNat)).toList.flatten)).length
      ≤ 51 := by
  have fee := length_optionalUint header.baseFeePerGas
  have mixHash := length_hashSlice header.mixHash
  have nonce := length_bigEndian 8 header.nonce.toNat
  rw [List.length_append, List.length_append, length_rlpString, length_rlpString,
    rlpStringLength_of_ne (by omega), rlpStringLength_of_ne (by omega), mixHash, nonce,
    show lengthOfLength 32 = 1 from rfl, show lengthOfLength 8 = 1 from rfl]
  omega

/-- Headers with equal encodings are equal: the fields are read back one after another. -/
theorem encode_injective : Function.Injective encode := by
  intro left right same
  have lengths := congrArg List.length same
  rw [length_encode, length_encode, length, length] at lengths
  have payloads : left.rlpPayloadLength = right.rlpPayloadLength := by
    by_contra differ
    rcases Nat.lt_or_gt_of_ne differ with less | less
    · have more := lengthOfLength_mono (Nat.le_of_lt less)
      omega
    · have more := lengthOfLength_mono (Nat.le_of_lt less)
      omega
  rw [encode, encode, payloads] at same
  have fields := List.append_cancel_left same
  simp only [fieldEncodings, List.flatten_append, List.flatten_cons, List.flatten_nil,
    List.append_assoc, List.nil_append] at fields
  obtain ⟨parentHash, fields⟩ := hash_delimits _ _ _ _ fields
  obtain ⟨ommersHash, fields⟩ := hash_delimits _ _ _ _ fields
  obtain ⟨beneficiary, fields⟩ := address_delimits _ _ _ _ fields
  obtain ⟨stateRoot, fields⟩ := hash_delimits _ _ _ _ fields
  obtain ⟨transactionsRoot, fields⟩ := hash_delimits _ _ _ _ fields
  obtain ⟨receiptsRoot, fields⟩ := hash_delimits _ _ _ _ fields
  obtain ⟨gameStateRoot, fields⟩ := hash_delimits _ _ _ _ fields
  obtain ⟨logsBloom, fields⟩ := bloom_delimits _ _ _ _ fields
  obtain ⟨difficulty, fields⟩ := uint256_delimits _ _ _ _ fields
  obtain ⟨number, fields⟩ := uint64_delimits _ _ _ _ fields
  obtain ⟨gasLimit, fields⟩ := uint64_delimits _ _ _ _ fields
  obtain ⟨gasUsed, fields⟩ := uint64_delimits _ _ _ _ fields
  obtain ⟨timestamp, fields⟩ := uint64_delimits _ _ _ _ fields
  obtain ⟨gameTick, fields⟩ := uint64_delimits _ _ _ _ fields
  have shortLeft := length_afterExtraData left
  have shortRight := length_afterExtraData right
  obtain ⟨extraData, fields⟩ := byteVector_delimits (by omega) (by omega) fields
  obtain ⟨mixHash, fields⟩ := hash_delimits _ _ _ _ fields
  obtain ⟨nonce, fields⟩ := nonce_delimits _ _ _ _ fields
  have baseFeePerGas := optionalUint_injective fields
  cases left
  cases right
  simp only [BlockHeader.mk.injEq]
  exact ⟨parentHash, ommersHash, beneficiary, stateRoot, transactionsRoot, receiptsRoot,
    gameStateRoot, logsBloom, difficulty, number, gasLimit, gasUsed, timestamp, gameTick,
    extraData, mixHash, nonce, baseFeePerGas⟩

/-- A header encoding is a list prefix and a payload of the declared length, its length is
known without encoding, and it determines the header.
-/
theorem encode_faithful
    : (∀ header : BlockHeader,
        (∃ payload,
          header.encode = rlpPrefix 0xC0 header.rlpPayloadLength ++ payload
          ∧ payload.length = header.rlpPayloadLength)
        ∧ header.encode.length = header.length)
      ∧ Function.Injective encode :=
  ⟨fun header =>
    ⟨⟨header.fieldEncodings.flatten, rfl, length_flatten_fieldEncodings header⟩,
      length_encode header⟩,
    encode_injective⟩

end BlockHeader

end VeloChain
