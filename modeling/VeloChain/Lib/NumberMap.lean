import Mathlib.Order.Lattice.Nat
import Mathlib.Data.Finset.Lattice.Fold
import Mathlib.Order.Interval.Finset.Nat
import VeloChain.Lib.HashMapOrder

/-! Maps whose keys are numbers, walked from the lowest key to the highest. -/

namespace FinMap

variable {V : Type*}

/-- The keys in ascending order. -/
def numbers (m : FinMap Nat V) : List Nat := sortedKeys id Function.injective_id m

/-- The values in the order of their keys. -/
def values (m : FinMap Nat V) : List V := m.numbers.filterMap m.lookup

/-- The highest key, or zero. -/
def highest (m : FinMap Nat V) : Nat := m.keys.sup id

/-- Erase the listed keys one after another. -/
def eraseAll (keys : List Nat) (m : FinMap Nat V) : FinMap Nat V :=
  keys.foldl (fun m key => m.erase key) m

/-- Erase the entries that are not to be kept. -/
def retain (keep : V → Bool) (m : FinMap Nat V) : FinMap Nat V :=
  eraseAll (m.numbers.filter (fun key => (m.lookup key).any (fun value => !keep value))) m

/-- Remove the entry with the lowest key. -/
def popFirst (m : FinMap Nat V) : FinMap Nat V :=
  match m.numbers with
  | [] => m
  | first :: _ => m.erase first

/-- Remove the lowest entries while there are more than `bound`. -/
@[irreducible]
def popDownTo (bound : Nat) (m : FinMap Nat V) : FinMap Nat V :=
  popFirst^[m.keys.card - bound] m

@[simp]
theorem mem_numbers {m : FinMap Nat V} {key : Nat} : key ∈ m.numbers ↔ key ∈ m :=
  mem_sortedKeys m key

theorem pairwise_numbers (m : FinMap Nat V) : m.numbers.Pairwise (· < ·) := by
  have sorted : m.numbers.Pairwise (fun a b => a ≤ b) := by
    unfold numbers sortedKeys
    obtain ⟨keys, same⟩ := Quot.exists_rep m.keys.val
    rw [← same]
    exact List.pairwise_insertionSort _ keys
  exact (sorted.and (nodup_sortedKeys m)).imp fun ⟨le, ne⟩ => Nat.lt_of_le_of_ne le ne

/-- A map on a range of numbers lists that range. -/
theorem numbers_eq_range' {m : FinMap Nat V} {first count : Nat}
    (range : ∀ key, key ∈ m ↔ first ≤ key ∧ key < first + count)
    : m.numbers = List.range' first count := by
  have same : m.numbers.Perm (List.range' first count) := by
    apply (List.perm_ext_iff_of_nodup (nodup_sortedKeys m) List.nodup_range').mpr
    intro key
    change key ∈ m.numbers ↔ _
    rw [mem_numbers, range, List.mem_range'_1]
  exact same.eq_of_pairwise (fun _ _ _ _ lt gt => absurd lt (Nat.lt_asymm gt))
    (pairwise_numbers m) List.pairwise_lt_range'

/-- A map on numbers of a range has at most as many entries. -/
theorem card_le_of_range {m : FinMap Nat V} {first count : Nat}
    (range : ∀ key ∈ m, first ≤ key ∧ key < first + count)
    : m.keys.card ≤ count := by
  have inRange : m.keys ⊆ Finset.Ico first (first + count) := fun key isKey =>
    Finset.mem_Ico.mpr (range key (Finmap.mem_keys.mp isKey))
  have few := Finset.card_le_card inRange
  rwa [Nat.card_Ico, Nat.add_sub_cancel_left] at few

/-- A map on all numbers of a range has as many entries. -/
theorem card_eq_of_range {m : FinMap Nat V} {first count : Nat}
    (range : ∀ key, key ∈ m ↔ first ≤ key ∧ key < first + count)
    : m.keys.card = count := by
  have same : m.keys = Finset.Ico first (first + count) := by
    ext key
    rw [Finmap.mem_keys, range, Finset.mem_Ico]
  rw [same, Nat.card_Ico, Nat.add_sub_cancel_left]

theorem mem_values {m : FinMap Nat V} {value : V}
    : value ∈ m.values ↔ ∃ key, m.lookup key = some value := by
  unfold values
  rw [List.mem_filterMap]
  constructor
  · rintro ⟨key, _, found⟩
    exact ⟨key, found⟩
  · rintro ⟨key, found⟩
    exact ⟨key, mem_numbers.mpr (Finmap.mem_of_lookup_eq_some found), found⟩

theorem le_highest {m : FinMap Nat V} {key : Nat} (member : key ∈ m) : key ≤ m.highest :=
  Finset.le_sup (f := id) (Finmap.mem_keys.mpr member)

theorem highest_mem {m : FinMap Nat V} {key : Nat} (member : key ∈ m) : m.highest ∈ m := by
  obtain ⟨top, isKey, same⟩ := Finset.exists_mem_eq_sup m.keys
    ⟨key, Finmap.mem_keys.mpr member⟩ id
  unfold highest
  rw [same]
  exact Finmap.mem_keys.mp isKey

/-- Where zero is no key, the highest number is a key or the map is empty. -/
theorem highest_eq_zero_or_mem (m : FinMap Nat V) : m.highest = 0 ∨ m.highest ∈ m := by
  by_cases any : ∃ key, key ∈ m
  · exact Or.inr (highest_mem any.choose_spec)
  · left
    have none : m.keys = ∅ := by
      rw [Finset.eq_empty_iff_forall_notMem]
      exact fun key member => any ⟨key, Finmap.mem_keys.mp member⟩
    rw [highest, none, Finset.sup_empty]
    rfl

theorem lookup_eraseAll (keys : List Nat) (m : FinMap Nat V) (key : Nat)
    : (eraseAll keys m).lookup key = if key ∈ keys then none else m.lookup key := by
  induction keys generalizing m with
  | nil => rfl
  | cons first rest ih =>
      change (eraseAll rest (m.erase first)).lookup key = _
      rw [ih, lookup_erase_eq]
      by_cases here : key = first
      · simp [here]
      · simp [here]

theorem mem_eraseAll {keys : List Nat} {m : FinMap Nat V} {key : Nat}
    : key ∈ eraseAll keys m ↔ key ∈ m ∧ key ∉ keys := by
  rw [← Finmap.lookup_isSome, ← Finmap.lookup_isSome, lookup_eraseAll]
  split
  next erased => simp [erased]
  next other => simp [other]

theorem lookup_retain (keep : V → Bool) (m : FinMap Nat V) (key : Nat)
    : (m.retain keep).lookup key = (m.lookup key).filter keep := by
  unfold retain
  rw [lookup_eraseAll]
  cases found : m.lookup key with
  | none => simp
  | some value =>
      have member : key ∈ m := Finmap.mem_of_lookup_eq_some found
      cases kept : keep value with
      | false => simp [found, member, kept, Option.filter]
      | true => simp [found, kept, Option.filter]

theorem exists_least {m : FinMap Nat V} {key : Nat} (member : key ∈ m)
    : ∃ first ∈ m, ∀ other ∈ m, first ≤ other := by
  have any : ∃ key, key ∈ m := ⟨key, member⟩
  exact ⟨Nat.find any, Nat.find_spec any, fun _ isKey => Nat.find_min' any isKey⟩

/-- The removed entry is the one with the lowest key. -/
theorem popFirst_eq_erase {m : FinMap Nat V} {first : Nat} (member : first ∈ m)
    (least : ∀ key ∈ m, first ≤ key)
    : m.popFirst = m.erase first := by
  unfold popFirst
  cases listed : m.numbers with
  | nil =>
      have member := mem_numbers.mpr member
      simp [listed] at member
  | cons head rest =>
      have sorted := pairwise_numbers m
      rw [listed] at sorted
      have isFirst : head = first := by
        have isKey : head ∈ m := mem_numbers.mp (by rw [listed]; exact List.mem_cons_self)
        have position := mem_numbers.mpr member
        rw [listed] at position
        rcases List.mem_cons.mp position with same | later
        · exact same.symm
        · have below := List.rel_of_pairwise_cons sorted later
          have above := least head isKey
          omega
      rw [isFirst]

theorem lookup_popFirst_some {m : FinMap Nat V} {key : Nat} {value : V}
    (found : m.popFirst.lookup key = some value)
    : m.lookup key = some value := by
  unfold popFirst at found
  split at found
  next => exact found
  next =>
    rw [lookup_erase_eq] at found
    split at found
    next => simp at found
    next => exact found

theorem card_popFirst (m : FinMap Nat V) : m.popFirst.keys.card = m.keys.card - 1 := by
  unfold popFirst
  split
  next listed =>
    have none : m.keys = ∅ := by
      rw [Finset.eq_empty_iff_forall_notMem]
      intro key member
      have listedKey := mem_numbers.mpr (Finmap.mem_keys.mp member)
      simp [listed] at listedKey
    rw [none, Finset.card_empty]
  next first rest listed =>
    have member : first ∈ m := mem_numbers.mp (by rw [listed]; exact List.mem_cons_self)
    rw [Finmap.keys_erase, Finset.card_erase_of_mem (Finmap.mem_keys.mpr member)]

/-- By induction on the number of removed entries. -/
theorem card_popDownTo_le (bound : Nat) (m : FinMap Nat V)
    : (m.popDownTo bound).keys.card ≤ bound := by
  have removed : ∀ count, (popFirst^[count] m).keys.card = m.keys.card - count := by
    intro count
    induction count with
    | zero => rfl
    | succ count ih => rw [Function.iterate_succ_apply', card_popFirst, ih, Nat.sub_sub]
  rw [popDownTo, removed]
  omega

theorem popDownTo_of_card_le {bound : Nat} {m : FinMap Nat V} (fits : m.keys.card ≤ bound)
    : m.popDownTo bound = m := by
  rw [popDownTo, Nat.sub_eq_zero_of_le fits]
  rfl

/-- With one entry too many, the lowest is removed. -/
theorem popDownTo_of_card_eq_succ {bound : Nat} {m : FinMap Nat V}
    (full : m.keys.card = bound + 1)
    : m.popDownTo bound = m.popFirst := by
  rw [popDownTo, full, Nat.add_sub_cancel_left]
  rfl

/-- Nothing appears by removing entries, by induction on their number. -/
theorem lookup_popDownTo_some {bound : Nat} {m : FinMap Nat V} {key : Nat} {value : V}
    (found : (m.popDownTo bound).lookup key = some value)
    : m.lookup key = some value := by
  unfold popDownTo at found
  generalize m.keys.card - bound = count at found
  induction count with
  | zero => exact found
  | succ count ih =>
      rw [Function.iterate_succ_apply'] at found
      exact ih (lookup_popFirst_some found)

theorem card_eq_zero_iff {m : FinMap Nat V} : m.keys.card = 0 ↔ ∀ key, m.lookup key = none := by
  rw [Finset.card_eq_zero, Finset.eq_empty_iff_forall_notMem]
  exact forall_congr' fun key => by rw [Finmap.mem_keys, Finmap.lookup_eq_none]

/-- A map with the old keys and one more is larger. -/
theorem card_lt_card {before after : FinMap Nat V} (keeps : ∀ key ∈ before, key ∈ after)
    {key : Nat} (added : key ∈ after) (new : key ∉ before)
    : before.keys.card < after.keys.card := by
  apply Finset.card_lt_card
  rw [Finset.ssubset_iff_of_subset (fun key => by simpa only [Finmap.mem_keys] using keeps key)]
  exact ⟨key, Finmap.mem_keys.mpr added, Finmap.mem_keys.not.mpr new⟩

/-- A map is smaller when an entry is not retained. -/
theorem card_retain_lt {m : FinMap Nat V} {keep : V → Bool} {key : Nat} {value : V}
    (found : m.lookup key = some value) (dropped : keep value = false)
    : (m.retain keep).keys.card < m.keys.card := by
  apply @card_lt_card _ _ _ _ key (Finmap.mem_of_lookup_eq_some found)
  · apply Finmap.lookup_eq_none.mp
    rw [lookup_retain, found, Option.filter, dropped, if_neg Bool.false_ne_true]
  · intro key' kept
    obtain ⟨value', isKept⟩ := Finmap.mem_iff.mp kept
    rw [lookup_retain] at isKept
    exact Finmap.mem_of_lookup_eq_some (Option.filter_eq_some_iff.mp isKept).1

/-- The greatest of a list and a start value. -/
theorem foldl_max (items : List Nat) (start : Nat)
    : (items.foldl max start = start ∨ items.foldl max start ∈ items)
      ∧ start ≤ items.foldl max start
      ∧ ∀ item ∈ items, item ≤ items.foldl max start := by
  induction items generalizing start with
  | nil => simp
  | cons first rest ih =>
      obtain ⟨attained, above, all⟩ := ih (max start first)
      rw [List.foldl_cons]
      refine ⟨?_, by omega, ?_⟩
      · rcases attained with same | later
        · rcases Nat.le_total start first with le | le
          · right
            rw [same, Nat.max_eq_right le]
            exact List.mem_cons_self
          · left
            rw [same, Nat.max_eq_left le]
        · exact Or.inr (List.mem_cons_of_mem first later)
      · intro item member
        rcases List.mem_cons.mp member with rfl | later
        · omega
        · exact all item later

end FinMap
