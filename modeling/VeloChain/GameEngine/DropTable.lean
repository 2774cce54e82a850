import Mathlib.Data.UInt
import VeloChain.Lib.WeightedChoice
import VeloChain.Primitives.Types
import VeloChain.GameEngine.Shops

/-! Drop tables: what an NPC leaves behind.
The loop over the entries adds their weights up in 64-bit words. As long as the sum of all
weights fits, the residue of the first random number picks each entry by its weight.
-/

namespace VeloChain

open WeightedChoice

/-- A single drop table entry. -/
structure DropEntry where
  itemId : ItemDefId
  weight : UInt32
  minQuantity : UInt32
  maxQuantity : UInt32
  deriving DecidableEq

/-- Drop table for an NPC type. -/
structure DropTable where
  entries : List DropEntry
  nothingWeight : UInt32

/-- What a residue decides: no drop, or an entry, which comes with its place. -/
inductive DropChoice
  | nothing
  | entry (chosen : DropEntry × Nat)
  deriving DecidableEq

/-- Deterministic random number from seed and index. -/
def deterministicRandom (keccak256 : Bytes → B256) (seed index : UInt64) : UInt64 :=
  let result := hashSlice
    (keccak256 (Bytes.littleEndian 8 seed.toNat ++ Bytes.littleEndian 8 index.toNat))
  .ofNat (Bytes.toNat (result.take 8).reverse)

/-- How many of the entry's item are dropped. -/
def DropEntry.quantity (keccak256 : Bytes → B256) (seed : UInt64) (entry : DropEntry) : UInt32 :=
  let difference :=
    if entry.minQuantity ≤ entry.maxQuantity then entry.maxQuantity - entry.minQuantity else 0
  let range := difference + 1
  if range ≤ 1 then entry.minQuantity
  else
    let qtyRoll := deterministicRandom keccak256 seed 1 % range.toUInt64
    entry.minQuantity + qtyRoll.toUInt32

namespace DropTable

def totalWeight (table : DropTable) : UInt64 :=
  table.nothingWeight.toUInt64 + (table.entries.map (fun entry => entry.weight.toUInt64)).sum

/-- The loop over the entries; without a result it falls through. -/
def rollEntries (roll : UInt64) : UInt64 → List (DropEntry × Nat) → Option (DropEntry × Nat)
  | _, [] => none
  | cumulative, entry :: rest =>
      let cumulative := cumulative + entry.1.weight.toUInt64
      if roll < cumulative then some entry else rollEntries roll cumulative rest

/-- What the residue of the first random number decides. -/
def choose (roll : UInt64) (table : DropTable) : Option DropChoice :=
  let cumulative := table.nothingWeight.toUInt64
  if roll < cumulative then some .nothing
  else (rollEntries roll cumulative table.entries.zipIdx).map .entry

/-- Roll a drop from this table using a deterministic seed. -/
def roll (keccak256 : Bytes → B256) (seed : UInt64) (table : DropTable)
    : Option (ItemDefId × UInt32) :=
  if table.totalWeight = 0 then none
  else
    match table.choose (deterministicRandom keccak256 seed 0 % table.totalWeight) with
    | none | some .nothing => none
    | some (.entry chosen) => some (chosen.1.itemId, chosen.1.quantity keccak256 seed)

-----------------------------------------------------------------------------------------
-- The weights
-----------------------------------------------------------------------------------------

/-- The sum of all weights, as a number. -/
def weightSum (table : DropTable) : Nat :=
  table.nothingWeight.toNat + (table.entries.map (fun entry => entry.weight.toNat)).sum

/-- How many residues of the total weight decide for a choice. -/
def residuesOf (choice : DropChoice) (table : DropTable) : Nat :=
  Nat.count (fun residue => table.choose (.ofNat residue) = some choice) table.totalWeight.toNat

/-- The residues are dealt out by the weights, none of them falls through, and a roll drops the
entry decided for, in a quantity between its bounds.
-/
structure ExactWeights (keccak256 : Bytes → B256) (table : DropTable) : Prop where
  nothing : table.residuesOf .nothing = table.nothingWeight.toNat
  entry
    : ∀ index entry, table.entries[index]? = some entry →
        table.residuesOf (.entry (entry, index)) = entry.weight.toNat
  decided
    : ∀ residue < table.totalWeight.toNat, (table.choose (.ofNat residue)).isSome
  dropped
    : ∀ seed, ∃ choice,
        table.choose (deterministicRandom keccak256 seed 0 % table.totalWeight) = some choice
        ∧ match choice with
          | .nothing => table.roll keccak256 seed = none
          | .entry chosen =>
              table.entries[chosen.2]? = some chosen.1
              ∧ ∃ quantity,
                  table.roll keccak256 seed = some (chosen.1.itemId, quantity)
                  ∧ (chosen.1.minQuantity ≤ chosen.1.maxQuantity →
                      chosen.1.minQuantity ≤ quantity ∧ quantity ≤ chosen.1.maxQuantity)

theorem residuesOf_le (choice : DropChoice) (table : DropTable)
    : table.residuesOf choice ≤ table.totalWeight.toNat :=
  Nat.count_le _

theorem toNat_totalWeight (table : DropTable)
    : table.totalWeight.toNat = table.weightSum % 2 ^ 64 := by
  have entriesSum (entries : List DropEntry)
      : UInt64.toNat (entries.map (fun entry => entry.weight.toUInt64)).sum
        = (entries.map (fun entry => entry.weight.toNat)).sum % 2 ^ 64 := by
    induction entries with
    | nil => rfl
    | cons entry rest ih =>
        rw [List.map_cons, List.sum_cons, UInt64.toNat_add, ih, List.map_cons, List.sum_cons,
          UInt32.toNat_toUInt64, Nat.add_mod_mod]
  rw [totalWeight, UInt64.toNat_add, entriesSum, UInt32.toNat_toUInt64, Nat.add_mod_mod]
  rfl

def entryWeight (entry : DropEntry × Nat) : Nat := entry.1.weight.toNat

/-- What can be decided for, in the order of the cumulative weights. -/
def choices (table : DropTable) : List DropChoice :=
  .nothing :: table.entries.zipIdx.map .entry

def choiceWeight (table : DropTable) : DropChoice → Nat
  | .nothing => table.nothingWeight.toNat
  | .entry chosen => entryWeight chosen

/-- While no sum wraps around, the loop picks by the weights. By induction on the entries. -/
theorem rollEntries_eq_pick {roll cumulative : UInt64} {entries : List (DropEntry × Nat)}
    (small : cumulative.toNat + total entryWeight entries < 2 ^ 64) (reached : cumulative ≤ roll)
    : rollEntries roll cumulative entries
      = pick entryWeight entries (roll.toNat - cumulative.toNat) := by
  induction entries generalizing cumulative with
  | nil => rfl
  | cons entry rest ih =>
      rw [total_cons] at small
      have reached' := UInt64.le_iff_toNat_le.mp reached
      have sum : (cumulative + entry.1.weight.toUInt64).toNat
          = cumulative.toNat + entryWeight entry := by
        rw [UInt64.toNat_add, UInt32.toNat_toUInt64]
        have fits : cumulative.toNat + entryWeight entry < 2 ^ 64 := by omega
        exact Nat.mod_eq_of_lt fits
      have sameTest : roll < cumulative + entry.1.weight.toUInt64
          ↔ roll.toNat - cumulative.toNat < entryWeight entry := by
        rw [UInt64.lt_iff_toNat_lt, sum]
        omega
      rw [rollEntries, pick]
      by_cases here : roll < cumulative + entry.1.weight.toUInt64
      · rw [if_pos here, if_pos (sameTest.mp here)]
      · rw [if_neg here, if_neg (sameTest.not.mp here), Nat.sub_sub, ← sum]
        exact ih (by rw [sum]; omega) (UInt64.not_lt.mp here)

theorem total_zipIdx (entries : List DropEntry)
    : total entryWeight entries.zipIdx
      = (entries.map (fun entry => entry.weight.toNat)).sum := by
  have firsts
      : entries.zipIdx.map entryWeight
        = (entries.zipIdx.map Prod.fst).map (fun entry => entry.weight.toNat) := by
    rw [List.map_map]
    rfl
  rw [total, firsts, List.zipIdx_map_fst]

theorem total_choices (table : DropTable)
    : total table.choiceWeight table.choices = table.weightSum := by
  have others
      : total table.choiceWeight (table.entries.zipIdx.map .entry)
        = total entryWeight table.entries.zipIdx := by
    rw [total, List.map_map]
    rfl
  rw [choices, total_cons, others, total_zipIdx]
  rfl

theorem nodup_choices (table : DropTable) : table.choices.Nodup := by
  have nodupPlaces : table.entries.zipIdx.Nodup := by
    refine List.Nodup.of_map Prod.snd ?_
    rw [List.zipIdx_map_snd]
    exact List.nodup_range'
  refine List.nodup_cons.mpr ⟨by simp, ?_⟩
  exact nodupPlaces.map (fun _ _ same => DropChoice.entry.inj same)

section Exact

variable {table : DropTable} (small : table.weightSum < 2 ^ 64)

include small

theorem choose_eq_pick (roll : UInt64)
    : table.choose roll = pick table.choiceWeight table.choices roll.toNat := by
  have sameTest : roll < table.nothingWeight.toUInt64
      ↔ roll.toNat < table.choiceWeight .nothing := by
    rw [UInt64.lt_iff_toNat_lt, UInt32.toNat_toUInt64]
    rfl
  rw [choose, choices, pick]
  by_cases here : roll < table.nothingWeight.toUInt64
  · rw [if_pos here, if_pos (sameTest.mp here)]
  · have fits
        : table.nothingWeight.toUInt64.toNat + total entryWeight table.entries.zipIdx
          < 2 ^ 64 := by
      rw [total_zipIdx, UInt32.toNat_toUInt64]
      exact small
    rw [if_neg here, if_neg (sameTest.not.mp here), pick_map,
      rollEntries_eq_pick fits (UInt64.not_lt.mp here), UInt32.toNat_toUInt64]
    rfl

theorem toNat_totalWeight_eq : table.totalWeight.toNat = table.weightSum := by
  rw [toNat_totalWeight, Nat.mod_eq_of_lt small]

theorem choose_ofNat_eq_pick {residue : Nat} (below : residue < table.weightSum)
    : table.choose (.ofNat residue) = pick table.choiceWeight table.choices residue := by
  rw [choose_eq_pick small, UInt64.toNat_ofNat_of_lt' (below.trans small)]

theorem residuesOf_eq_share (choice : DropChoice)
    : table.residuesOf choice = share table.choiceWeight table.choices choice := by
  rw [residuesOf, share, toNat_totalWeight_eq small, total_choices]
  refine le_antisymm ?_ ?_
  · refine Nat.count_mono_left (fun residue below chosen => ?_)
    rwa [choose_ofNat_eq_pick small below] at chosen
  · refine Nat.count_mono_left (fun residue below picked => ?_)
    rwa [choose_ofNat_eq_pick small below]

theorem residuesOf_eq_weight {choice : DropChoice} (member : choice ∈ table.choices)
    : table.residuesOf choice = table.choiceWeight choice := by
  rw [residuesOf_eq_share small, share_of_mem table.nodup_choices member]

theorem isSome_choose {roll : UInt64} (below : roll < table.totalWeight)
    : (table.choose roll).isSome := by
  rw [choose_eq_pick small]
  refine isSome_pick ?_
  rw [total_choices, ← toNat_totalWeight_eq small]
  exact UInt64.lt_iff_toNat_lt.mp below

theorem getElem?_of_choose {roll : UInt64} {chosen : DropEntry × Nat}
    (decided : table.choose roll = some (.entry chosen))
    : table.entries[chosen.2]? = some chosen.1 := by
  rw [choose_eq_pick small] at decided
  have member := mem_of_pick decided
  simpa [choices, List.mem_zipIdx_iff_getElem?] using member

end Exact

/-- An amount between the bounds, when they are in order. -/
theorem quantity_between (keccak256 : Bytes → B256) (seed : UInt64) {entry : DropEntry}
    (ordered : entry.minQuantity ≤ entry.maxQuantity)
    : entry.minQuantity ≤ entry.quantity keccak256 seed
      ∧ entry.quantity keccak256 seed ≤ entry.maxQuantity := by
  have ordered' := UInt32.le_iff_toNat_le.mp ordered
  have difference := UInt32.toNat_sub_of_le _ _ ordered
  have bound := UInt32.toNat_lt entry.maxQuantity
  simp only [DropEntry.quantity, if_pos ordered]
  split
  next => exact ⟨UInt32.le_refl _, ordered⟩
  next wide =>
    -- a range above one did not wrap around
    have range
        : (entry.maxQuantity - entry.minQuantity + 1).toNat
          = entry.maxQuantity.toNat - entry.minQuantity.toNat + 1 := by
      have wide' := UInt32.lt_iff_toNat_lt.mp (UInt32.not_le.mp wide)
      rw [UInt32.toNat_add, difference] at wide' ⊢
      have one : (1 : UInt32).toNat = 1 := rfl
      omega
    have amount
        : (deterministicRandom keccak256 seed 1
            % (entry.maxQuantity - entry.minQuantity + 1).toUInt64).toNat
          < entry.maxQuantity.toNat - entry.minQuantity.toNat + 1 := by
      rw [UInt64.toNat_mod, UInt32.toNat_toUInt64, range]
      exact Nat.mod_lt _ (Nat.succ_pos _)
    rw [UInt32.le_iff_toNat_le, UInt32.le_iff_toNat_le, UInt32.toNat_add,
      UInt64.toNat_toUInt32]
    omega

/-- Every choice gets the residues of its weight as long as the sum of the weights is a 64-bit
word.
-/
theorem exactWeights_of_fits (keccak256 : Bytes → B256) {table : DropTable}
    (positive : 0 < table.weightSum) (small : table.weightSum < 2 ^ 64)
    : ExactWeights keccak256 table := by
  have nonzero : table.totalWeight ≠ 0 := by
    intro isZero
    rw [← toNat_totalWeight_eq small, isZero] at positive
    exact absurd positive (lt_irrefl 0)
  constructor
  case nothing => exact residuesOf_eq_weight small List.mem_cons_self
  case entry =>
    intro index entry found
    refine residuesOf_eq_weight small (List.mem_cons_of_mem _ (List.mem_map_of_mem ?_))
    exact List.mk_mem_zipIdx_iff_getElem?.mpr found
  case decided =>
    intro residue below
    refine isSome_choose small ?_
    rw [UInt64.lt_iff_toNat_lt, UInt64.toNat_ofNat_of_lt' (below.trans (UInt64.toNat_lt _))]
    exact below
  case dropped =>
    intro seed
    have below : deterministicRandom keccak256 seed 0 % table.totalWeight < table.totalWeight :=
      UInt64.mod_lt _ (UInt64.pos_iff_ne_zero.mpr nonzero)
    obtain ⟨choice, decided⟩ := Option.isSome_iff_exists.mp (isSome_choose small below)
    refine ⟨choice, decided, ?_⟩
    cases choice with
    | nothing => simp [roll, nonzero, decided]
    | entry chosen =>
        refine ⟨getElem?_of_choose small decided, chosen.1.quantity keccak256 seed, ?_,
          quantity_between keccak256 seed⟩
        simp [roll, nonzero, decided]

/-- What a wolf leaves behind. -/
def wolfDrops : DropTable :=
  { entries :=
      [{ itemId := 22, weight := 40, minQuantity := 1, maxQuantity := 2 },
        { itemId := 31, weight := 20, minQuantity := 1, maxQuantity := 1 }]
    nothingWeight := 40 }

theorem exactWeights_of_fits_wolfDrops
    : wolfDrops.weightSum = 100 ∧ ExactWeights (fun _ => 0) wolfDrops :=
  ⟨by decide, exactWeights_of_fits (fun _ => 0) (by decide) (by decide)⟩

/-- A table of equal entries. -/
def evenDrops (count : Nat) (entry : DropEntry) : DropTable :=
  { entries := List.replicate count entry
    nothingWeight := 0 }

theorem weightSum_evenDrops (count : Nat) (entry : DropEntry)
    : (evenDrops count entry).weightSum = count * entry.weight.toNat := by
  simp [weightSum, evenDrops]

/-- One item, with the largest weight there is. -/
def heavyEntry : DropEntry :=
  { itemId := 22, weight := 4294967295, minQuantity := 1, maxQuantity := 1 }

/-- The sum of enough of the largest weights wraps around, and what it leaves is less than the
weight of the first entry.
-/
theorem exactWeights_fails_on_heavyEntry
    : ¬ ∀ table : DropTable,
        0 < table.weightSum → 0 < table.totalWeight.toNat →
        (∀ entry ∈ table.entries,
          ¬ (entry.minQuantity = 0 ∧ entry.maxQuantity = 4294967295)) →
        ExactWeights (fun _ => 0) table := by
  intro claimed
  have weight : heavyEntry.weight.toNat = 4294967295 := rfl
  have sum := weightSum_evenDrops 4294967298 heavyEntry
  have wrapped := toNat_totalWeight (evenDrops 4294967298 heavyEntry)
  rw [sum, weight] at wrapped
  have allowed
      : ∀ entry ∈ (evenDrops 4294967298 heavyEntry).entries,
          ¬ (entry.minQuantity = 0 ∧ entry.maxQuantity = 4294967295) := by
    intro entry member
    rw [List.eq_of_mem_replicate member]
    decide
  have first : (evenDrops 4294967298 heavyEntry).entries[0]? = some heavyEntry :=
    List.getElem?_replicate_of_lt (by omega)
  have exactly :=
    (claimed _ (by omega) (by omega) allowed).entry 0 heavyEntry first
  have most := residuesOf_le (.entry (heavyEntry, 0)) (evenDrops 4294967298 heavyEntry)
  omega

end DropTable

end VeloChain
