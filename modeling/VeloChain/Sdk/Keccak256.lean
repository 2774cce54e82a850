import Mathlib.Data.Int.Bitwise
import VeloChain.Lib.IndependentUpdates
import VeloChain.Lib.Keccak

/-! The hash function of the client SDK.
A big integer that is not negative is a natural number. Storing one in an array of 64-bit words
keeps its lowest 64 bits.
-/

namespace VeloChain

namespace Sdk

open IndependentUpdates

def RC : List UInt64 :=
  [ 0x0000000000000001, 0x0000000000008082, 0x800000000000808a
  , 0x8000000080008000, 0x000000000000808b, 0x0000000080000001
  , 0x8000000080008081, 0x8000000000008009, 0x000000000000008a
  , 0x0000000000000088, 0x0000000080008009, 0x000000008000000a
  , 0x000000008000808b, 0x800000000000008b, 0x8000000000008089
  , 0x8000000000008003, 0x8000000000008002, 0x8000000000000080
  , 0x000000000000800a, 0x800000008000000a, 0x8000000080008081
  , 0x8000000000008080, 0x0000000080000001, 0x8000000080008008 ]

def ROTC : List Nat :=
  [ 1, 3, 6, 10, 15, 21, 28, 36, 45, 55, 2, 14, 27, 41, 56, 8, 25, 43, 62
  , 18, 39, 61, 20, 44 ]

def PI : List (Fin 25) :=
  [ 10, 7, 11, 17, 18, 3, 5, 16, 8, 21, 24, 4, 15, 23, 19, 13, 12, 2, 20
  , 14, 22, 9, 6, 1 ]

/-- 64-bit left rotation. -/
def rot64 (x n : Nat) : Nat := ((x <<< n) ||| (x >>> (64 - n))) &&& 0xffffffffffffffff

/-- State: 5x5 array of 64-bit words. -/
abbrev KeccakState := Vector UInt64 25

/-- The index of the word of `x` and `y`. -/
def index (x y : Fin 5) : Fin 25 := ⟨x.val + y.val * 5, by omega⟩

def theta (state : KeccakState) : KeccakState :=
  let c : Vector UInt64 5 :=
    .ofFn (fun x =>
      state[index x 0] ^^^ state[index x 1] ^^^ state[index x 2] ^^^ state[index x 3]
        ^^^ state[index x 4])
  let d : Vector UInt64 5 :=
    .ofFn (fun x => UInt64.ofNat ((c)[x + 4].toNat ^^^ rot64 (c)[x + 1].toNat 1))
  (List.finRange 5).foldl
    (fun state x =>
      (List.finRange 5).foldl
        (fun state y => state.set (index x y) (state[index x y] ^^^ d[x]))
        state)
    state

/-- Rho and pi at once: each word is rotated into the place of the next one. -/
def rhoPi (state : KeccakState) : KeccakState :=
  ((PI.zip ROTC).foldl
    (fun (state, last) (j, rotation) =>
      let temp := state[j]
      (state.set j (UInt64.ofNat (rot64 last.toNat rotation)), temp))
    (state, state[index 1 0])).1

/-- The complement of a big integer is negative. -/
def chi (state : KeccakState) : KeccakState :=
  (List.finRange 5).foldl
    (fun state y =>
      let t : Vector UInt64 5 := .ofFn (fun x => state[index x y])
      (List.finRange 5).foldl
        (fun state x =>
          state.set (index x y)
            (UInt64.ofInt
              (Int.xor t[x].toNat (Int.land (Int.lnot t[x + 1].toNat) t[x + 2].toNat))))
        state)
    state

def iota (rc : UInt64) (state : KeccakState) : KeccakState :=
  state.set (index 0 0) (state[index 0 0] ^^^ rc)

/-- Keccak-f[1600]. -/
def keccakF (state : KeccakState) : KeccakState :=
  RC.foldl (fun state rc => iota rc (chi (rhoPi (theta state)))) state

def rate : Nat := 136

/-- The input, filled up with zeros to whole blocks, with the two padding bits. -/
def padded (data : Bytes) : Bytes :=
  let length := (data.length + 1 + (rate - 1)) / rate * rate
  let padded := data ++ List.replicate (length - data.length) 0
  let padded := padded.set data.length 0x01
  padded.modify (length - 1) (· ||| 0x80)

/-- The eight bytes from an offset on as a word. -/
def word (padded : Bytes) (offset : Nat) : Nat :=
  (List.range 8).foldl
    (fun word j => word ||| ((padded[offset + j]?.getD 0).toNat <<< (j * 8)))
    0

/-- Absorb the block at an offset, of `rate / 8` words. -/
def absorb (padded : Bytes) (offset : Nat) (state : KeccakState) : KeccakState :=
  (List.finRange 17).foldl
    (fun state (i : Fin 17) =>
      state.set i (UInt64.ofNat (state[i].toNat ^^^ word padded (offset + i * 8))))
    state

/-- Absorb the blocks from an offset on. -/
def absorbFrom (padded : Bytes) (offset : Nat) (state : KeccakState) : KeccakState :=
  if offset < padded.length then
    absorbFrom padded (offset + rate) (keccakF (absorb padded offset state))
  else state
  termination_by padded.length - offset
  decreasing_by simp only [rate]; omega

/-- Squeeze (only 256 bits = 32 bytes). -/
def squeeze (state : KeccakState) : Bytes :=
  (List.finRange 4).flatMap (fun i =>
    (List.range 8).map (fun j => UInt8.ofNat ((state[i].toNat >>> (j * 8)) &&& 0xff)))

def keccak256 (data : Bytes) : Bytes :=
  squeeze (absorbFrom (padded data) 0 (.replicate 25 0))

-----------------------------------------------------------------------------------------
-- The lanes of the state
-----------------------------------------------------------------------------------------

theorem index_injective {x y x' y' : Fin 5} : index x y = index x' y' ↔ x = x' ∧ y = y' := by
  revert x y x' y'
  decide

/-- The lanes of a state. -/
def lanes (state : KeccakState) : Keccak.State := fun x y => state[index x y].toBitVec

@[simp]
theorem lanes_set (state : KeccakState) (x y : Fin 5) (word : UInt64) (x' y' : Fin 5)
    : lanes (state.set (index x y) word) x' y'
      = if x = x' ∧ y = y' then word.toBitVec else lanes state x' y' := by
  unfold lanes
  by_cases same : x = x' ∧ y = y'
  · obtain ⟨rfl, rfl⟩ := same
    simp
  · have different : index x y ≠ index x' y' := fun equal => same (index_injective.mp equal)
    rw [if_neg same]
    exact congrArg UInt64.toBitVec
      (Vector.getElem_set_ne _ _ (fun equal => different (Fin.ext equal)))

/-- Each turn of the outer loop updates one column, each turn of the inner loop one word of it. -/
theorem foldl_columns (d : Fin 5 → UInt64) (state : KeccakState) (x y : Fin 5)
    : ((List.finRange 5).foldl
          (fun state x =>
            (List.finRange 5).foldl
              (fun state y => state.set (index x y) (state[index x y] ^^^ d x))
              state)
          state)[index x y]
      = state[index x y] ^^^ d x := by
  let column (state : KeccakState) (x : Fin 5) : KeccakState :=
    (List.finRange 5).foldl (updateAt (index x) (fun _ word => word ^^^ d x)) state
  have own (state : KeccakState) (x : Fin 5)
      : (fun y => (column state x)[index x y]) = fun y => state[index x y] ^^^ d x := by
    funext y
    have inj : (index x).Injective := fun y y' same => (index_injective.mp same).2
    exact foldl_updateAt inj _ (List.nodup_finRange 5) state (List.mem_finRange y)
  have other (state : KeccakState) (x x' : Fin 5) (different : x ≠ x')
      : (fun y => (column state x)[index x' y]) = fun y => state[index x' y] := by
    funext y
    exact foldl_updateAt_frame _ state
      (fun _ _ same => different (index_injective.mp same).1)
  exact congrFun
    (@foldl_view _ _ _ _ column (fun state x y => state[index x y])
      (fun x words y => words y ^^^ d x) own other _ (List.nodup_finRange 5) state x
      (List.mem_finRange x))
    y

end Sdk

end VeloChain
