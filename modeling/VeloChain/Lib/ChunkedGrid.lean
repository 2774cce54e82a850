import Mathlib.Algebra.Order.Ring.Int
import VeloChain.Lib.HashMapOrder

/-! Grids that are computed chunk by chunk.
Chunks are remembered once they were asked for, and the cells of a chunk are stored row by row.
-/

namespace ChunkedGrid

-----------------------------------------------------------------------------------------
-- Remembered values
-----------------------------------------------------------------------------------------

section Remembered

variable {K V : Type*} [DecidableEq K] {f : K → V} {table : FinMap K V}

/-- The table after the value of a key was asked for. -/
def remember (f : K → V) (key : K) (table : FinMap K V) : FinMap K V :=
  if key ∈ table then table else table.insert key (f key)

/-- The table holds values of the function only. -/
def Remembers (f : K → V) (table : FinMap K V) : Prop :=
  ∀ key value, table.lookup key = some value → value = f key

theorem remembers_empty : Remembers f ∅ := by
  intro key value found
  simp at found

/-- Whatever was asked before, a key has the value of the function afterwards. -/
theorem lookup_remember (remembers : Remembers f table) (key : K)
    : (remember f key table).lookup key = some (f key) := by
  unfold remember
  split
  next known =>
    obtain ⟨value, found⟩ := Finmap.mem_iff.mp known
    rw [found, remembers key value found]
  next => exact Finmap.lookup_insert table

theorem remembers_remember (remembers : Remembers f table) (key : K)
    : Remembers f (remember f key table) := by
  unfold remember
  split
  next => exact remembers
  next =>
    intro other value found
    by_cases same : other = key
    · rw [same, Finmap.lookup_insert] at found
      rw [same, Option.some.inj found]
    · rw [Finmap.lookup_insert_of_ne _ same] at found
      exact remembers other value found

end Remembered

-----------------------------------------------------------------------------------------
-- Cells of a chunk
-----------------------------------------------------------------------------------------

section Cells

variable {α β γ : Type*}

/-- The place of a cell is its row times the width, plus its column. By induction on the rows. -/
theorem getElem?_flatMap_map (cell : α → β → γ) (rows : List α) (columns : List β) (row : Nat)
    {column : Nat} (within : column < columns.length)
    : (rows.flatMap (fun y => columns.map (cell y)))[row * columns.length + column]?
      = rows[row]?.map (fun y => cell y columns[column]) := by
  induction rows generalizing row with
  | nil => rfl
  | cons first rest ih =>
      rw [List.flatMap_cons]
      cases row with
      | zero =>
          have inRow : 0 * columns.length + column < (columns.map (cell first)).length := by
            rw [List.length_map]
            omega
          rw [List.getElem?_append_left inRow, List.getElem?_map, Nat.zero_mul, Nat.zero_add,
            List.getElem?_eq_getElem within]
          rfl
      | succ row =>
          have place
              : (row + 1) * columns.length + column
                = (columns.map (cell first)).length + (row * columns.length + column) := by
            rw [List.length_map, Nat.succ_mul]
            omega
          rw [place, List.getElem?_append_right (Nat.le_add_right _ _), Nat.add_sub_cancel_left, ih,
            List.getElem?_cons_succ]

/-- The cells of a chunk of this size, row by row. -/
def cells (size : Nat) (cell : Int → Int → γ) (cx cy : Int) : List γ :=
  (List.range size).flatMap (fun ly : Nat =>
    (List.range size).map (fun lx : Nat => cell (cx * size + lx) (cy * size + ly)))

/-- The cell of a position, also a negative one, is found in its chunk by the remainders. -/
theorem getElem?_cells {size : Nat} (positive : 0 < size) (cell : Int → Int → γ) (x y : Int)
    : (cells size cell (x / size) (y / size))[(y % size).toNat * size + (x % size).toNat]?
      = some (cell x y) := by
  have remainder (z : Int) : (z % size).toNat < size ∧ ((z % size).toNat : Int) = z % size := by
    have nonneg := Int.emod_nonneg z (Int.natCast_ne_zero.mpr positive.ne')
    have below := Int.emod_lt_of_pos z (Int.natCast_pos.mpr positive)
    omega
  have composed (z : Int) : z / size * size + (z % size).toNat = z := by
    rw [(remainder z).2, Int.ediv_mul_add_emod]
  have within : (x % size).toNat < (List.range size).length := by
    rw [List.length_range]
    exact (remainder x).1
  have found :=
    getElem?_flatMap_map (fun ly lx : Nat => cell (x / size * size + lx) (y / size * size + ly))
      (List.range size) (List.range size) (y % size).toNat within
  rw [List.length_range] at found
  rw [cells, found, List.getElem?_range (remainder y).1, Option.map_some, List.getElem_range,
    composed, composed]

end Cells

end ChunkedGrid
