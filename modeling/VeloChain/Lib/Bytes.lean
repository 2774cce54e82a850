import Mathlib.Data.List.Basic
import Mathlib.Tactic.Ring

/-! Byte strings: integers as bytes, of a fixed width or as short as possible. -/

/-- A byte string. -/
abbrev Bytes := List UInt8

namespace Bytes

/-- The lowest `width` bytes of a number, most significant first. -/
def bigEndian : Nat → Nat → Bytes
  | 0, _ => []
  | width + 1, n => UInt8.ofNat (n / 256 ^ width) :: bigEndian width n

/-- The lowest `width` bytes of a number, least significant first. -/
def littleEndian (width n : Nat) : Bytes := (bigEndian width n).reverse

/-- The number whose big-endian digits are the given bytes. -/
def toNat (bytes : Bytes) : Nat := bytes.foldl (fun n byte => n * 256 + byte.toNat) 0

@[simp]
theorem length_bigEndian (width n : Nat) : (bigEndian width n).length = width := by
  induction width generalizing n with
  | zero => rfl
  | succ width ih => simp [bigEndian, ih]

theorem toNat_cons (byte : UInt8) (rest : Bytes)
    : toNat (byte :: rest) = byte.toNat * 256 ^ rest.length + toNat rest := by
  have shifted (bytes : Bytes) (n : Nat)
      : bytes.foldl (fun n byte => n * 256 + byte.toNat) n
        = n * 256 ^ bytes.length + toNat bytes := by
    induction bytes generalizing n with
    | nil => simp [toNat]
    | cons head tail ih =>
        rw [toNat, List.foldl_cons, List.foldl_cons, ih, ih (0 * 256 + head.toNat),
          List.length_cons, Nat.pow_succ]
        ring
  rw [toNat, List.foldl_cons, shifted, Nat.zero_mul, Nat.zero_add]

theorem toNat_lt (bytes : Bytes) : toNat bytes < 256 ^ bytes.length := by
  induction bytes with
  | nil => exact Nat.one_pos
  | cons byte rest ih =>
      rw [toNat_cons]
      calc
        byte.toNat * 256 ^ rest.length + toNat rest
            < byte.toNat * 256 ^ rest.length + 256 ^ rest.length := Nat.add_lt_add_left ih _
        _ = (byte.toNat + 1) * 256 ^ rest.length := (Nat.succ_mul _ _).symm
        _ ≤ 256 * 256 ^ rest.length := Nat.mul_le_mul_right _ byte.toNat_lt
        _ = 256 ^ (byte :: rest).length := Nat.pow_succ'.symm

theorem littleEndian_succ (width n : Nat)
    : littleEndian (width + 1) n = littleEndian width n ++ [UInt8.ofNat (n / 256 ^ width)] := by
  rw [littleEndian, bigEndian, List.reverse_cons, littleEndian]

/-- Reading back a written number keeps what fits the width, by induction on the width. -/
@[simp]
theorem toNat_bigEndian (width n : Nat) : toNat (bigEndian width n) = n % 256 ^ width := by
  induction width with
  | zero => simp [bigEndian, toNat, Nat.mod_one]
  | succ width ih =>
      rw [bigEndian, toNat_cons, ih, length_bigEndian, Nat.mod_pow_succ]
      simp only [UInt8.toNat_ofNat']
      ring

/-- Numbers below the bound of the width have different encodings. -/
theorem bigEndian_inj {width n m : Nat} (hn : n < 256 ^ width) (hm : m < 256 ^ width)
    (h : bigEndian width n = bigEndian width m)
    : n = m := by
  have same := congrArg toNat h
  rwa [toNat_bigEndian, toNat_bigEndian, Nat.mod_eq_of_lt hn, Nat.mod_eq_of_lt hm] at same

/-- Two byte strings, combined bit by bit. -/
def xor (left right : Bytes) : Bytes := List.zipWith (· ^^^ ·) left right

/-- The digits of combined numbers are the combined digits, by induction on the width. -/
theorem bigEndian_xor (width n m : Nat)
    : bigEndian width (n ^^^ m) = xor (bigEndian width n) (bigEndian width m) := by
  induction width with
  | zero => rfl
  | succ width ih =>
      have digit : (n ^^^ m) / 256 ^ width = (n / 256 ^ width) ^^^ (m / 256 ^ width) := by
        rw [show (256 : Nat) = 2 ^ 8 from rfl, ← Nat.pow_mul]
        simp only [← Nat.shiftRight_eq_div_pow]
        exact Nat.shiftRight_xor_distrib
      rw [bigEndian, digit, UInt8.ofNat_xor, ih]
      rfl

/-- The number of bytes of the shortest big-endian form. -/
def byteLength (n : Nat) : Nat := (Nat.log2 n / 8) + if n = 0 then 0 else 1

/-- The shortest big-endian form, empty for zero. -/
def minimalBigEndian (n : Nat) : Bytes := bigEndian (byteLength n) n

/-- Blocks that begin with headers of one positive length can be read back from their
concatenation when each header tells its block, by induction on the blocks.
-/
theorem headed_flatMap_inj {α : Type} {header body : α → Bytes} {width : Nat}
    (positive : 0 < width) (length : ∀ a, (header a).length = width) {left right : List α}
    (inj : ∀ a ∈ left, ∀ b ∈ right, header a = header b → a = b)
    (h
      : left.flatMap (fun a => header a ++ body a)
        = right.flatMap (fun a => header a ++ body a))
    : left = right := by
  have nonempty (a : α) (rest : Bytes) : header a ++ rest ≠ [] := by
    intro empty
    have none := congrArg List.length empty
    rw [List.length_append, length, List.length_nil] at none
    omega
  induction left generalizing right with
  | nil =>
      cases right with
      | nil => rfl
      | cons b rest =>
          rw [List.flatMap_nil, List.flatMap_cons, List.append_assoc] at h
          exact absurd h.symm (nonempty b _)
  | cons a left ih =>
      cases right with
      | nil =>
          rw [List.flatMap_nil, List.flatMap_cons, List.append_assoc] at h
          exact absurd h (nonempty a _)
      | cons b right =>
          rw [List.flatMap_cons, List.flatMap_cons, List.append_assoc, List.append_assoc] at h
          obtain ⟨headers, rests⟩ := List.append_inj h (by rw [length, length])
          obtain rfl := inj a List.mem_cons_self b List.mem_cons_self headers
          have injLater (c : α) (memC : c ∈ left) (d : α) (memD : d ∈ right)
              : header c = header d → c = d :=
            inj c (List.mem_cons_of_mem _ memC) d (List.mem_cons_of_mem _ memD)
          rw [ih injLater (List.append_cancel_left rests)]

/-- Blocks of one positive length can be read back from their concatenation. -/
theorem flatMap_inj {α : Type} {f : α → Bytes} {width : Nat} (positive : 0 < width)
    (length : ∀ a, (f a).length = width) (inj : f.Injective) {left right : List α}
    (h : left.flatMap f = right.flatMap f)
    : left = right :=
  @headed_flatMap_inj α f (fun _ => []) width positive length left right
    (fun _ _ _ _ same => inj same) (by simpa only [List.append_nil] using h)

/-- A number has a form of `width` bytes exactly when it is below the bound of the width. -/
theorem byteLength_le_iff {n width : Nat} : byteLength n ≤ width ↔ n < 256 ^ width := by
  have power : 256 ^ width = 2 ^ (8 * width) := by rw [Nat.pow_mul]
  by_cases zero : n = 0
  · simp [zero, byteLength]
  · rw [power, ← Nat.log2_lt zero]
    simp only [byteLength, zero, if_false]
    omega

theorem lt_pow_byteLength (n : Nat) : n < 256 ^ byteLength n :=
  byteLength_le_iff.mp (Nat.le_refl _)

@[simp]
theorem length_minimalBigEndian (n : Nat) : (minimalBigEndian n).length = byteLength n :=
  length_bigEndian _ _

/-- The shortest form holds the whole number. -/
theorem toNat_minimalBigEndian (n : Nat) : toNat (minimalBigEndian n) = n := by
  rw [minimalBigEndian, toNat_bigEndian, Nat.mod_eq_of_lt (lt_pow_byteLength n)]

theorem minimalBigEndian_inj {n m : Nat} (h : minimalBigEndian n = minimalBigEndian m) : n = m := by
  rw [← toNat_minimalBigEndian n, h, toNat_minimalBigEndian]

end Bytes
