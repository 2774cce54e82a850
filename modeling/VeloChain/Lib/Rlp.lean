import Mathlib.Order.Monotone.Defs
import VeloChain.Lib.Bytes

/-! The recursive length prefix encoding.
An item begins with its length, so it can be cut off the front of a longer string: the codes
of the items are self-delimiting.
-/

namespace Bytes

/-- A length prefix: `short` plus the length below 56 bytes, else `short + 55` plus the
length of the length and the length itself.
-/
def rlpPrefix (short : Nat) (length : Nat) : Bytes :=
  if length < 56 then [UInt8.ofNat (short + length)]
  else UInt8.ofNat (short + 55 + byteLength length) :: minimalBigEndian length

/-- A byte string; a single byte below 0x80 stands for itself. -/
def rlpString (bytes : Bytes) : Bytes :=
  match bytes with
  | [byte] => if byte < 0x80 then [byte] else rlpPrefix 0x80 1 ++ [byte]
  | _ => rlpPrefix 0x80 bytes.length ++ bytes

/-- An unsigned integer, without leading zeros. -/
def rlpUint (n : Nat) : Bytes := rlpString (minimalBigEndian n)

/-- A list of already encoded items. -/
def rlpList (items : List Bytes) : Bytes :=
  rlpPrefix 0xC0 items.flatten.length ++ items.flatten

/-- The number of bytes of a length prefix. -/
def lengthOfLength (length : Nat) : Nat := if length < 56 then 1 else 1 + byteLength length

/-- The length of an encoded byte string, without encoding it. -/
def rlpStringLength (bytes : Bytes) : Nat :=
  match bytes with
  | [byte] => if byte < 0x80 then 1 else 1 + lengthOfLength 1
  | _ => bytes.length + lengthOfLength bytes.length

/-- The length of an encoded integer, without encoding it. -/
def rlpUintLength (n : Nat) : Nat :=
  if n < 0x80 then 1 else byteLength n + lengthOfLength (byteLength n)

/-- The length of an encoded list, from the lengths of its encoded items. -/
def rlpListLength (itemLengths : List Nat) : Nat :=
  itemLengths.sum + lengthOfLength itemLengths.sum

section Lengths

theorem lengthOfLength_mono : Monotone lengthOfLength := by
  intro n m le
  have digits : byteLength n ≤ byteLength m :=
    byteLength_le_iff.mpr (Nat.lt_of_le_of_lt le (lt_pow_byteLength m))
  unfold lengthOfLength
  split <;> split <;> omega

@[simp]
theorem length_rlpPrefix (short length : Nat)
    : (rlpPrefix short length).length = lengthOfLength length := by
  unfold rlpPrefix lengthOfLength
  split
  next => rfl
  next => rw [List.length_cons, length_minimalBigEndian, Nat.add_comm]

@[simp]
theorem length_rlpString (bytes : Bytes) : (rlpString bytes).length = rlpStringLength bytes := by
  unfold rlpString rlpStringLength
  split
  next byte =>
    split
    next => rfl
    next => rw [List.length_append, length_rlpPrefix, List.length_singleton, Nat.add_comm]
  next => rw [List.length_append, length_rlpPrefix, Nat.add_comm]

/-- The length of a string of any other length than one. -/
theorem rlpStringLength_of_ne {bytes : Bytes} (h : bytes.length ≠ 1)
    : rlpStringLength bytes = bytes.length + lengthOfLength bytes.length := by
  unfold rlpStringLength
  split
  next => simp at h
  next => rfl

/-- The length of an encoded integer: by cases on whether its shortest form is one byte. -/
@[simp]
theorem length_rlpUint (n : Nat) : (rlpUint n).length = rlpUintLength n := by
  rw [rlpUint, length_rlpString]
  have bound := @byteLength_le_iff n 1
  by_cases single : byteLength n = 1
  · have small : n < 256 := bound.mp (Nat.le_of_eq single)
    have digit : minimalBigEndian n = [UInt8.ofNat n] := by
      simp [minimalBigEndian, single, bigEndian]
    have compared : UInt8.ofNat n < 0x80 ↔ n < 0x80 := by
      rw [UInt8.lt_iff_toNat_lt, UInt8.toNat_ofNat', Nat.mod_eq_of_lt small]
      rfl
    simp only [digit, rlpStringLength, rlpUintLength, compared, single]
  · rw [rlpStringLength_of_ne (by rwa [length_minimalBigEndian]), length_minimalBigEndian,
      rlpUintLength]
    split
    next low =>
      have none : byteLength n = 0 := by
        have atMost := bound.mpr (Nat.lt_trans low (by decide))
        omega
      simp [none, lengthOfLength]
    next => rfl

@[simp]
theorem length_rlpList (items : List Bytes)
    : (rlpList items).length = rlpListLength (items.map List.length) := by
  rw [rlpList, rlpListLength, List.length_append, length_rlpPrefix, List.length_flatten,
    Nat.add_comm]

end Lengths

/-- Codes that can be cut off the front of every string that begins with one. -/
def SelfDelimiting {α : Type*} (code : α → Bytes) : Prop :=
  ∀ a b rest rest', code a ++ rest = code b ++ rest' → a = b ∧ rest = rest'

section SelfDelimiting

variable {α : Type*} {code : α → Bytes}

/-- Different codes of one length are self-delimiting. -/
theorem SelfDelimiting.of_length (injective : code.Injective) {width : Nat}
    (length : ∀ a, (code a).length = width)
    : SelfDelimiting code := by
  intro a b rest rest' same
  obtain ⟨codes, rests⟩ := List.append_inj same (by rw [length, length])
  exact ⟨injective codes, rests⟩

/-- Sequences of self-delimiting codes can be read back, by induction on the sequence. -/
theorem SelfDelimiting.flatMap_injective (delimits : SelfDelimiting code)
    (nonempty : ∀ a, code a ≠ [])
    : (List.flatMap code).Injective := by
  intro left
  induction left with
  | nil =>
      intro right same
      cases right with
      | nil => rfl
      | cons b rest => exact absurd (List.append_eq_nil_iff.mp same.symm).1 (nonempty b)
  | cons a left ih =>
      intro right same
      cases right with
      | nil => exact absurd (List.append_eq_nil_iff.mp same).1 (nonempty a)
      | cons b right =>
          rw [List.flatMap_cons, List.flatMap_cons] at same
          obtain ⟨rfl, later⟩ := delimits _ _ _ _ same
          rw [ih later]

end SelfDelimiting

section Prefixes

variable {short n m : Nat} {rest rest' : Bytes}

theorem byteLength_le_succ (far : n ≤ m + 64) (long : 56 ≤ m)
    : byteLength n ≤ byteLength m + 1 := by
  rw [byteLength_le_iff, Nat.pow_succ]
  have bound := lt_pow_byteLength m
  omega

/-- A prefix tells its length apart from nearby ones. Lengths far apart can share a first
byte, once the length of a length does not fit it.
-/
theorem rlpPrefix_append_inj (near : n ≤ m + 64) (near' : m ≤ n + 64)
    (same : rlpPrefix short n ++ rest = rlpPrefix short m ++ rest')
    : n = m ∧ rest = rest' := by
  have firstByte {a b : Nat} (h : UInt8.ofNat a = UInt8.ofNat b) : a % 256 = b % 256 := by
    simpa only [UInt8.toNat_ofNat'] using congrArg UInt8.toNat h
  have oneByte {k : Nat} (h : k < 120) (long : 56 ≤ k) : byteLength k = 1 := by
    have atMost : byteLength k ≤ 1 := byteLength_le_iff.mpr (by omega)
    have atLeast : ¬ byteLength k ≤ 0 := by
      rw [byteLength_le_iff]
      omega
    omega
  unfold rlpPrefix at same
  by_cases shortN : n < 56 <;> by_cases shortM : m < 56
  · simp only [shortN, shortM, if_true, List.cons_append, List.nil_append,
      List.cons.injEq] at same
    have equal := firstByte same.1
    exact ⟨by omega, same.2⟩
  · simp only [shortN, shortM, if_true, if_false, List.cons_append, List.nil_append,
      List.cons.injEq] at same
    have equal := firstByte same.1
    rw [oneByte (by omega) (by omega)] at equal
    omega
  · simp only [shortN, shortM, if_true, if_false, List.cons_append, List.nil_append,
      List.cons.injEq] at same
    have equal := firstByte same.1
    rw [oneByte (by omega) (by omega)] at equal
    omega
  · simp only [shortN, shortM, if_false, List.cons_append, List.cons.injEq] at same
    have equal := firstByte same.1
    have upper := byteLength_le_succ near (by omega)
    have upper' := byteLength_le_succ near' (by omega)
    have widths : byteLength n = byteLength m := by omega
    obtain ⟨digits, rests⟩ := List.append_inj same.2 (by
      rw [length_minimalBigEndian, length_minimalBigEndian, widths])
    exact ⟨minimalBigEndian_inj digits, rests⟩

end Prefixes

section Strings

variable {left right rest rest' : Bytes}

/-- A string is encoded with a prefix unless it is one byte below 0x80. -/
theorem rlpString_cases (bytes : Bytes)
    : (∃ byte, bytes = [byte] ∧ byte < 0x80 ∧ rlpString bytes = [byte])
      ∨ rlpString bytes = rlpPrefix 0x80 bytes.length ++ bytes := by
  unfold rlpString
  split
  next byte =>
    split
    next low => exact Or.inl ⟨byte, rfl, low, rfl⟩
    next => exact Or.inr rfl
  next => exact Or.inr rfl

/-- The prefix of a short string begins with a byte from 0x80 on. -/
theorem rlpPrefix_head {n : Nat} (short : n < 56)
    : ∃ byte, rlpPrefix 0x80 n = [byte] ∧ ¬ byte < 0x80 := by
  refine ⟨UInt8.ofNat (0x80 + n), by simp only [rlpPrefix, short, if_true], ?_⟩
  rw [UInt8.lt_iff_toNat_lt, UInt8.toNat_ofNat', Nat.mod_eq_of_lt (by omega)]
  exact Nat.not_lt.mpr (Nat.le_add_right _ _)

/-- Short strings are read back from the front of a longer one. -/
theorem rlpString_append_inj (shortLeft : left.length < 56) (shortRight : right.length < 56)
    (same : rlpString left ++ rest = rlpString right ++ rest')
    : left = right ∧ rest = rest' := by
  obtain ⟨head, prefixLeft, high⟩ := rlpPrefix_head shortLeft
  obtain ⟨head', prefixRight, high'⟩ := rlpPrefix_head shortRight
  rcases rlpString_cases left with ⟨byte, rfl, low, single⟩ | long
    <;> rcases rlpString_cases right with ⟨byte', rfl, low', single'⟩ | long'
  · rw [single, single'] at same
    exact List.append_inj same rfl
  · rw [single, long', prefixRight] at same
    obtain ⟨rfl, _⟩ := List.cons.inj same
    exact absurd low high'
  · rw [long, single', prefixLeft] at same
    obtain ⟨rfl, _⟩ := List.cons.inj same
    exact absurd low' high
  · rw [long, long', List.append_assoc, List.append_assoc] at same
    obtain ⟨lengths, later⟩ := rlpPrefix_append_inj (by omega) (by omega) same
    exact List.append_inj later lengths

/-- Strings of one width are read back from the front of a longer one. -/
theorem SelfDelimiting.rlpString {α : Type*} {code : α → Bytes} (injective : code.Injective)
    {width : Nat} (length : ∀ a, (code a).length = width) (notSingle : width ≠ 1)
    : SelfDelimiting (fun a => Bytes.rlpString (code a)) := by
  have framed (a : α) : Bytes.rlpString (code a) = rlpPrefix 0x80 width ++ code a := by
    rcases rlpString_cases (code a) with ⟨byte, single, _⟩ | long
    · exact absurd ((length a).symm.trans (congrArg List.length single)) notSingle
    · rw [long, length]
  intro a b rest rest' same
  simp only [framed, List.append_assoc, List.append_cancel_left_eq] at same
  exact SelfDelimiting.of_length injective length a b rest rest' same

/-- Integers below the bound are read back from the front of a string. -/
theorem SelfDelimiting.rlpUint {α : Type*} {value : α → Nat} (injective : value.Injective)
    (small : ∀ a, value a < 256 ^ 55)
    : SelfDelimiting (fun a => Bytes.rlpUint (value a)) := by
  have short (a : α) : (minimalBigEndian (value a)).length < 56 := by
    rw [length_minimalBigEndian]
    exact Nat.lt_succ_of_le (byteLength_le_iff.mpr (small a))
  intro a b rest rest' same
  obtain ⟨digits, rests⟩ := rlpString_append_inj (short a) (short b) same
  exact ⟨injective (minimalBigEndian_inj digits), rests⟩

theorem rlpString_ne_nil (bytes : Bytes) : rlpString bytes ≠ [] := by
  rcases rlpString_cases bytes with ⟨byte, _, _, single⟩ | long
  · simp [single]
  · rw [long]
    unfold rlpPrefix
    split <;> simp

end Strings

/-- Lists are read back from the front of strings whose ends differ little in length. -/
theorem rlpList_append_inj {left right : List Bytes} {rest rest' : Bytes}
    (near : rest.length ≤ rest'.length + 64) (near' : rest'.length ≤ rest.length + 64)
    (same : rlpList left ++ rest = rlpList right ++ rest')
    : left.flatten = right.flatten ∧ rest = rest' := by
  have lengths := congrArg List.length same
  unfold rlpList at same lengths
  simp only [List.length_append, length_rlpPrefix] at lengths
  rw [List.append_assoc, List.append_assoc] at same
  have upper : left.flatten.length ≤ right.flatten.length + 64 := by
    by_contra far
    have more := @lengthOfLength_mono right.flatten.length left.flatten.length (by omega)
    omega
  have lower : right.flatten.length ≤ left.flatten.length + 64 := by
    by_contra far
    have more := @lengthOfLength_mono left.flatten.length right.flatten.length (by omega)
    omega
  obtain ⟨payloads, later⟩ := rlpPrefix_append_inj upper lower same
  exact List.append_inj later payloads

end Bytes
