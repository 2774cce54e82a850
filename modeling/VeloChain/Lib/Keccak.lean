import Mathlib.Data.BitVec
import Mathlib.Data.Fin.Basic
import VeloChain.Lib.Bytes

/-! Keccak: the permutation of 1600 bits on 64-bit lanes, and a sponge over it.
Coordinates are taken modulo five. The sponge reads whole bytes and writes at most one block.
-/

namespace Keccak

abbrev Lane := BitVec 64

/-- Coordinates are counted modulo five. -/
instance neZero_five : NeZero 5 := ⟨by decide⟩

/-- The lanes of the state, by their `x` and `y`. -/
abbrev State := Fin 5 → Fin 5 → Lane

-----------------------------------------------------------------------------------------
-- The step mappings
-----------------------------------------------------------------------------------------

/-- The parity of the columns. -/
def parity (a : State) (x : Fin 5) : Lane := a x 0 ^^^ a x 1 ^^^ a x 2 ^^^ a x 3 ^^^ a x 4

def theta (a : State) : State := fun x y =>
  a x y ^^^ (parity a (x - 1) ^^^ (parity a (x + 1)).rotateLeft 1)

/-- The walk through all lanes but the origin along which the offsets are assigned. -/
def walk : Nat → Fin 5 × Fin 5
  | 0 => (1, 0)
  | t + 1 => ((walk t).2, 2 * (walk t).1 + 3 * (walk t).2)

/-- The lane at step `t` of the walk is rotated by the triangular number of `t + 1`. -/
def offset (x y : Fin 5) : Nat :=
  match (List.range 24).find? (fun t => walk t = (x, y)) with
  | some t => (t + 1) * (t + 2) / 2
  | none => 0

def rho (a : State) : State := fun x y => (a x y).rotateLeft (offset x y)

def pi (a : State) : State := fun x y => a (x + 3 * y) x

def chi (a : State) : State := fun x y => a x y ^^^ (~~~ (a (x + 1) y) &&& a (x + 2) y)

/-- The shift register of the round constants, with the polynomial `x^8 + x^6 + x^5 + x^4 + 1`. -/
def register : Nat → BitVec 8
  | 0 => 1
  | t + 1 => (register t <<< 1) ^^^ (if (register t).msb then 0x71 else 0)

/-- Bit `2 ^ j - 1` of a round constant is an output of the shift register. -/
def roundConstant (round : Nat) : Lane :=
  (List.range 7).foldl
    (fun constant j =>
      if (register ((j + 7 * round) % 255)).getLsbD 0 then constant ||| 1#64 <<< (2 ^ j - 1)
      else constant)
    0

def iota (constant : Lane) (a : State) : State := fun x y =>
  if x = 0 ∧ y = 0 then a x y ^^^ constant else a x y

def round (constant : Lane) (a : State) : State := iota constant (chi (pi (rho (theta a))))

/-- The permutation, in 24 rounds. -/
def permute (a : State) : State :=
  (List.range 24).foldl (fun a number => round (roundConstant number) a) a

/-- The lane at step `t + 1` of the walk is the rotated lane of step `t`. -/
theorem pi_rho_walk (a : State) (t : Nat)
    : pi (rho a) (walk (t + 1)).1 (walk (t + 1)).2 = rho a (walk t).1 (walk t).2 := by
  have back : ∀ x y : Fin 5, y + 3 * (2 * x + 3 * y) = x := by decide
  unfold pi
  rw [walk, back]

theorem walk_covers : ∀ x y : Fin 5, (x, y) ≠ (0, 0) → ∃ t < 24, walk (t + 1) = (x, y) := by
  decide

theorem offset_walk : ∀ t < 24, offset (walk t).1 (walk t).2 = (t + 1) * (t + 2) / 2 := by
  decide

-----------------------------------------------------------------------------------------
-- The sponge
-----------------------------------------------------------------------------------------

/-- Multi-rate padding of at least one byte, with the bits of a domain in front. -/
def padding (domain : UInt8) : Nat → Bytes
  | 0 => []
  | 1 => [domain ||| 0x80]
  | count + 2 => domain :: (List.replicate count 0 ++ [0x80])

/-- A message and its padding, up to the end of a block. -/
def pad (domain : UInt8) (rate : Nat) (message : Bytes) : Bytes :=
  message ++ padding domain (rate - message.length % rate)

def blocks (rate : Nat) (padded : Bytes) : List Bytes :=
  (List.range (padded.length / rate)).map (fun k => (padded.drop (rate * k)).take rate)

/-- The little-endian lane of the bytes. -/
def lane (bytes : Bytes) : Lane := BitVec.ofNat 64 (Bytes.toNat bytes.reverse)

/-- Add a block to the first lanes of the state. -/
def absorb (a : State) (block : Bytes) : State := fun x y =>
  a x y ^^^ lane ((block.drop (8 * (x.val + 5 * y.val))).take 8)

/-- The first bytes of the state. -/
def squeeze (length : Nat) (a : State) : Bytes :=
  ((List.finRange 5).flatMap (fun y =>
    (List.finRange 5).flatMap (fun x => Bytes.littleEndian 8 (a x y).toNat))).take length

def sponge (domain : UInt8) (rate length : Nat) (message : Bytes) : Bytes :=
  squeeze length
    ((blocks rate (pad domain rate message)).foldl (fun a block => permute (absorb a block))
      (fun _ _ => 0))

/-- Keccak with an output of 256 bits. -/
def keccak256 (message : Bytes) : Bytes := sponge 0x01 136 32 message

@[simp]
theorem length_padding (domain : UInt8) (count : Nat) : (padding domain count).length = count := by
  match count with
  | 0 => rfl
  | 1 => rfl
  | count + 2 => simp [padding]

/-- A padded message ends with a block. -/
theorem length_pad (domain : UInt8) {rate : Nat} (positive : 0 < rate) (message : Bytes)
    : (pad domain rate message).length = rate * (message.length / rate + 1) := by
  have split := Nat.div_add_mod message.length rate
  have below := Nat.mod_lt message.length positive
  rw [pad, List.length_append, length_padding, Nat.mul_succ]
  omega

end Keccak
