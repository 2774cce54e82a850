import VeloChain.Lib.HashMapOrder

/-! The bounded cache before the database: a map and the order in which its keys were inserted.
The order has exactly the keys of the map, the one that has been there longest first; this is
the one an insertion into a full cache evicts.
-/

namespace VeloChain

/-- Simple bounded cache with eviction in the order of insertion. -/
structure BoundedCache (K V : Type*) where
  map : FinMap K V
  order : List K
  capacity : Nat

/-- The operations of the cache. -/
inductive CacheOp (K V : Type*)
  | get (key : K)
  | insert (key : K) (value : V)
  | remove (key : K)
  | clear

namespace BoundedCache

variable {K V : Type*} [DecidableEq K]

def new (capacity : Nat) : BoundedCache K V := { map := ∅, order := [], capacity }

def get (key : K) (cache : BoundedCache K V) : Option V := cache.map.lookup key

/-- Evict the oldest entry. -/
def evictOldest (cache : BoundedCache K V) : BoundedCache K V :=
  match cache.order with
  | [] => cache
  | oldKey :: rest => { cache with map := cache.map.erase oldKey, order := rest }

/-- An entry that is there is changed in place; a new one goes to the end. -/
def insert (key : K) (value : V) (cache : BoundedCache K V) : BoundedCache K V :=
  match cache.map.lookup key with
  | some _ => { cache with map := cache.map.insert key value }
  | none =>
      let cache := if cache.order.length ≥ cache.capacity then cache.evictOldest else cache
      { cache with map := cache.map.insert key value, order := cache.order ++ [key] }

def remove (key : K) (cache : BoundedCache K V) : BoundedCache K V :=
  { cache with
    map := cache.map.erase key
    order := cache.order.filter (fun k => decide (k ≠ key)) }

def len (cache : BoundedCache K V) : Nat := cache.map.keys.card

def clear (cache : BoundedCache K V) : BoundedCache K V :=
  { cache with map := ∅, order := [] }

end BoundedCache

variable {K V : Type*} [DecidableEq K]

/-- What an operation makes of a cache; a read leaves it as it is. -/
def CacheOp.apply (cache : BoundedCache K V) : CacheOp K V → BoundedCache K V
  | .get _ => cache
  | .insert key value => cache.insert key value
  | .remove key => cache.remove key
  | .clear => cache.clear

/-- The value that an operation inserts under a key. -/
def CacheOp.inserted (key : K) : CacheOp K V → Option V
  | .insert key' value => if key' = key then some value else none
  | _ => none

namespace BoundedCache

/-- The cache after some operations. -/
def run (capacity : Nat) (ops : List (CacheOp K V)) : BoundedCache K V :=
  ops.foldl CacheOp.apply (new capacity)

/-- The value that was inserted last under a key. -/
def lastInserted (key : K) (ops : List (CacheOp K V)) : Option V :=
  ops.foldl (fun last op => (op.inserted key).or last) none

/-- The operation with this number has brought the key in, and it has been there since. -/
structure PresentSince (capacity : Nat) (ops : List (CacheOp K V)) (key : K) (arrival : Nat)
    : Prop where
  past : arrival < ops.length
  absent : key ∉ (run capacity (ops.take arrival)).map
  present
    : ∀ time, arrival < time → time ≤ ops.length → key ∈ (run capacity (ops.take time)).map

/-- One key has been there longer than another one. -/
def Longer (capacity : Nat) (ops : List (CacheOp K V)) (old recent : K) : Prop :=
  ∃ arrival later,
    PresentSince capacity ops old arrival
    ∧ PresentSince capacity ops recent later
    ∧ arrival < later

/-- The order has the keys of the map, each once, and no more than the capacity. -/
structure InStep (cache : BoundedCache K V) : Prop where
  nodup : cache.order.Nodup
  mem_order : ∀ key, key ∈ cache.order ↔ key ∈ cache.map
  bounded : cache.order.length ≤ cache.capacity
  positive : 1 ≤ cache.capacity

/-- What a cache holds after some operations, and what the next one makes of it. -/
structure Behaves (capacity : Nat) (ops : List (CacheOp K V)) (cache : BoundedCache K V)
    : Prop where
  nodup : cache.order.Nodup
  mem_order : ∀ key, key ∈ cache.order ↔ key ∈ cache.map
  bounded : cache.len ≤ capacity
  latest
    : ∀ key ∈ cache.map, ∃ value,
        cache.get key = some value ∧ lastInserted key ops = some value
  inPlace
    : ∀ key ∈ cache.map, ∀ value other,
        other ∈ (cache.insert key value).map ↔ other ∈ cache.map
  added
    : ∀ key value, key ∉ cache.map → cache.len < capacity → ∀ other,
        other ∈ (cache.insert key value).map ↔ other = key ∨ other ∈ cache.map
  evicted
    : ∀ key value, key ∉ cache.map → cache.len = capacity →
        ∃ oldest ∈ cache.map,
          (∀ other ∈ cache.map, other ≠ oldest → Longer capacity ops oldest other)
          ∧ ∀ other,
              other ∈ (cache.insert key value).map
              ↔ other = key ∨ other ∈ cache.map ∧ other ≠ oldest
  removed
    : ∀ key other,
        (cache.remove key).get other = if other = key then none else cache.get other
  cleared : ∀ key, cache.clear.get key = none

theorem run_append (capacity : Nat) (ops : List (CacheOp K V)) (op : CacheOp K V)
    : run capacity (ops ++ [op]) = op.apply (run capacity ops) := by
  rw [run, List.foldl_append]
  rfl

theorem lastInserted_append (key : K) (ops : List (CacheOp K V)) (op : CacheOp K V)
    : lastInserted key (ops ++ [op]) = (op.inserted key).or (lastInserted key ops) := by
  rw [lastInserted, List.foldl_append]
  rfl

-----------------------------------------------------------------------------------------
-- One operation
-----------------------------------------------------------------------------------------

variable {cache : BoundedCache K V}

theorem InStep.len_eq (inStep : cache.InStep) : cache.len = cache.order.length := by
  have keys : cache.map.keys = cache.order.toFinset := by
    ext key
    rw [Finmap.mem_keys, List.mem_toFinset, inStep.mem_order]
  rw [len, keys, List.toFinset_card_of_nodup inStep.nodup]

/-- What an insertion does: it changes a value in place, puts a key at the end where there is
room, or takes the place of the first key.
-/
theorem insert_cases (inStep : cache.InStep) (key : K) (value : V)
    : (key ∈ cache.map
        ∧ cache.insert key value = { cache with map := cache.map.insert key value })
      ∨ key ∉ cache.map
        ∧ (cache.order.length < cache.capacity
            ∧ cache.insert key value
              = { cache with map := cache.map.insert key value, order := cache.order ++ [key] }
          ∨ ∃ oldest rest,
              cache.order = oldest :: rest
              ∧ cache.order.length = cache.capacity
              ∧ cache.insert key value
                = { cache with
                    map := (cache.map.erase oldest).insert key value
                    order := rest ++ [key] }) := by
  unfold insert
  cases found : cache.map.lookup key with
  | some old => exact Or.inl ⟨Finmap.mem_of_lookup_eq_some found, rfl⟩
  | none =>
      refine Or.inr ⟨Finmap.lookup_eq_none.mp found, ?_⟩
      by_cases full : cache.order.length ≥ cache.capacity
      · obtain ⟨oldest, rest, order⟩ :=
          List.exists_cons_of_length_pos (inStep.positive.trans full)
        have evicted
            : cache.evictOldest
              = { cache with map := cache.map.erase oldest, order := rest } := by
          simp only [evictOldest, order]
        exact Or.inr ⟨oldest, rest, order, le_antisymm inStep.bounded full,
          by simp only [if_pos full, evicted]⟩
      · exact Or.inl ⟨not_le.mp full, by simp only [full, if_false]⟩

theorem InStep.insert (inStep : cache.InStep) (key : K) (value : V)
    : (cache.insert key value).InStep := by
  rcases insert_cases inStep key value with ⟨known, same⟩
    | ⟨fresh, ⟨room, same⟩ | ⟨oldest, rest, order, -, same⟩⟩
  · rw [same]
    refine ⟨inStep.nodup, fun k => ?_, inStep.bounded, inStep.positive⟩
    rw [Finmap.mem_insert, inStep.mem_order]
    exact ⟨Or.inr, fun either => either.elim (fun isKey => isKey ▸ known) id⟩
  · rw [same]
    have missing := mt (inStep.mem_order key).mp fresh
    refine ⟨?_, fun k => ?_, ?_, inStep.positive⟩
    · exact List.nodup_append_comm.mpr (List.nodup_cons.mpr ⟨missing, inStep.nodup⟩)
    · rw [List.mem_append, List.mem_singleton, inStep.mem_order, Finmap.mem_insert, or_comm]
    · rw [List.length_append, List.length_singleton]
      exact room
  · rw [same]
    have nodup := inStep.nodup
    have bounded := inStep.bounded
    have missing := mt (inStep.mem_order key).mp fresh
    rw [order] at nodup bounded missing
    obtain ⟨gone, nodup⟩ := List.nodup_cons.mp nodup
    refine ⟨?_, fun k => ?_, ?_, inStep.positive⟩
    · exact List.nodup_append_comm.mpr
        (List.nodup_cons.mpr ⟨mt (List.mem_cons_of_mem _) missing, nodup⟩)
    · have others := inStep.mem_order k
      rw [order, List.mem_cons] at others
      rw [List.mem_append, List.mem_singleton, Finmap.mem_insert, Finmap.mem_erase, ← others,
        or_comm]
      refine or_congr_right ⟨fun member => ⟨?_, Or.inr member⟩, ?_⟩
      · rintro rfl
        exact gone member
      · rintro ⟨notOldest, isOldest | member⟩
        · exact absurd isOldest notOldest
        · exact member
    · rw [List.length_append, List.length_singleton]
      exact bounded

@[simp]
theorem capacity_apply (cache : BoundedCache K V) (op : CacheOp K V)
    : (op.apply cache).capacity = cache.capacity := by
  cases op with
  | insert key value =>
      change (cache.insert key value).capacity = _
      unfold insert evictOldest
      split
      next => rfl
      next =>
        simp only
        split
        next => split <;> rfl
        next => rfl
  | get key => rfl
  | remove key => rfl
  | clear => rfl

theorem InStep.apply (inStep : cache.InStep) (op : CacheOp K V) : (op.apply cache).InStep := by
  cases op with
  | get key => exact inStep
  | insert key value => exact inStep.insert key value
  | remove key =>
      refine ⟨inStep.nodup.filter _, fun k => ?_,
        (List.length_filter_le _ _).trans inStep.bounded, inStep.positive⟩
      change k ∈ cache.order.filter (fun k => decide (k ≠ key)) ↔ k ∈ cache.map.erase key
      rw [List.mem_filter, decide_eq_true_iff, inStep.mem_order, Finmap.mem_erase, and_comm]
  | clear =>
      exact ⟨List.nodup_nil, fun k => iff_of_false List.not_mem_nil Finmap.notMem_empty,
        Nat.zero_le _, inStep.positive⟩

/-- Keys stay in their order, and a new one goes to the end. -/
theorem order_apply (inStep : cache.InStep) (op : CacheOp K V)
    : ∃ kept,
        kept.Sublist cache.order
        ∧ ((op.apply cache).order = kept
          ∨ ∃ key, key ∉ cache.map ∧ (op.apply cache).order = kept ++ [key]) := by
  cases op with
  | get key => exact ⟨cache.order, .refl _, Or.inl rfl⟩
  | insert key value =>
      change ∃ kept,
        _ ∧ ((cache.insert key value).order = kept
          ∨ ∃ k, k ∉ cache.map ∧ (cache.insert key value).order = kept ++ [k])
      rcases insert_cases inStep key value with ⟨_, same⟩
        | ⟨fresh, ⟨_, same⟩ | ⟨oldest, rest, order, -, same⟩⟩
      · exact ⟨cache.order, .refl _, Or.inl (by rw [same])⟩
      · exact ⟨cache.order, .refl _, Or.inr ⟨key, fresh, by rw [same]⟩⟩
      · exact ⟨rest, order ▸ List.sublist_cons_self _ _, Or.inr ⟨key, fresh, by rw [same]⟩⟩
  | remove key => exact ⟨_, List.filter_sublist, Or.inl rfl⟩
  | clear => exact ⟨[], List.nil_sublist _, Or.inl rfl⟩

/-- A value after an operation has just been inserted or was there before. -/
theorem lookup_apply (inStep : cache.InStep) {op : CacheOp K V} {key : K} {value : V}
    (found : (op.apply cache).map.lookup key = some value)
    : (op.inserted key).or (cache.map.lookup key) = some value := by
  cases op with
  | get key' => exact found
  | insert key' value' =>
      have inserted (m : FinMap K V) (found : (m.insert key' value').lookup key = some value)
          (from' : ∀ v, m.lookup key = some v → cache.map.lookup key = some v)
          : ((CacheOp.insert key' value').inserted key).or (cache.map.lookup key)
            = some value := by
        rw [FinMap.lookup_insert_eq] at found
        change (if key' = key then some value' else none).or _ = _
        by_cases same : key = key'
        · rw [if_pos same] at found
          rw [if_pos same.symm]
          exact found
        · rw [if_neg same] at found
          rw [if_neg (Ne.symm same), Option.none_or]
          exact from' value found
      change (cache.insert key' value').map.lookup key = _ at found
      rcases insert_cases inStep key' value' with ⟨_, same⟩
        | ⟨_, ⟨_, same⟩ | ⟨oldest, rest, -, -, same⟩⟩
      · rw [same] at found
        exact inserted cache.map found fun _ => id
      · rw [same] at found
        exact inserted cache.map found fun _ => id
      · rw [same] at found
        refine inserted (cache.map.erase oldest) found fun v isThere => ?_
        rw [FinMap.lookup_erase_eq] at isThere
        split at isThere
        next => simp at isThere
        next => exact isThere
  | remove key' =>
      change (cache.map.erase key').lookup key = _ at found
      rw [FinMap.lookup_erase_eq] at found
      split at found
      next => simp at found
      next => exact found
  | clear =>
      change (∅ : FinMap K V).lookup key = _ at found
      simp at found

-----------------------------------------------------------------------------------------
-- Runs
-----------------------------------------------------------------------------------------

variable {capacity : Nat} {ops : List (CacheOp K V)} {op : CacheOp K V}

theorem PresentSince.append {key : K} {arrival : Nat}
    (since : PresentSince capacity ops key arrival)
    (still : key ∈ (run capacity (ops ++ [op])).map)
    : PresentSince capacity (ops ++ [op]) key arrival := by
  have length : (ops ++ [op]).length = ops.length + 1 := List.length_append
  refine ⟨by have past := since.past; omega, ?_, fun time after within => ?_⟩
  · rw [List.take_append_of_le_length since.past.le]
    exact since.absent
  · rcases Nat.lt_or_ge ops.length time with last | earlier
    · rw [List.take_of_length_le (by omega)]
      exact still
    · rw [List.take_append_of_le_length earlier]
      exact since.present time after earlier

theorem presentSince_append_of_notMem {key : K} (absent : key ∉ (run capacity ops).map)
    (present : key ∈ (run capacity (ops ++ [op])).map)
    : PresentSince capacity (ops ++ [op]) key ops.length := by
  have length : (ops ++ [op]).length = ops.length + 1 := List.length_append
  refine ⟨by omega, ?_, fun time after within => ?_⟩
  · rw [List.take_append_of_le_length (Nat.le_refl _), List.take_length]
    exact absent
  · rw [List.take_of_length_le (by omega)]
    exact present

theorem Longer.append {old recent : K} (longer : Longer capacity ops old recent)
    (still : old ∈ (run capacity (ops ++ [op])).map)
    (still' : recent ∈ (run capacity (ops ++ [op])).map)
    : Longer capacity (ops ++ [op]) old recent := by
  obtain ⟨arrival, later, since, since', lt⟩ := longer
  exact ⟨arrival, later, since.append still, since'.append still', lt⟩

theorem capacity_run (capacity : Nat) (ops : List (CacheOp K V))
    : (run capacity ops).capacity = capacity := by
  induction ops using List.reverseRecOn with
  | nil => rfl
  | append_singleton ops op ih => rw [run_append, capacity_apply, ih]

theorem inStep_run (positive : 1 ≤ capacity) (ops : List (CacheOp K V))
    : (run capacity ops).InStep := by
  induction ops using List.reverseRecOn with
  | nil =>
      refine ⟨List.nodup_nil, fun k => ?_, Nat.zero_le _, positive⟩
      exact iff_of_false List.not_mem_nil Finmap.notMem_empty
  | append_singleton ops op ih => exact run_append capacity ops op ▸ ih.apply op

/-- The order tells which key has been there longer, by induction on the operations. -/
theorem ordered_run (positive : 1 ≤ capacity) (ops : List (CacheOp K V))
    : (∀ key ∈ (run capacity ops).order, ∃ arrival, PresentSince capacity ops key arrival)
      ∧ (run capacity ops).order.Pairwise (Longer capacity ops) := by
  induction ops using List.reverseRecOn with
  | nil => exact ⟨fun _ member => absurd member List.not_mem_nil, .nil⟩
  | append_singleton ops op ih =>
      obtain ⟨arrived, ordered⟩ := ih
      have still (key : K) : key ∈ (run capacity (ops ++ [op])).order
          → key ∈ (run capacity (ops ++ [op])).map :=
        ((inStep_run positive (ops ++ [op])).mem_order key).mp
      obtain ⟨kept, sublist, shape⟩ := order_apply (inStep_run positive ops) op
      rw [← run_append] at shape
      have arrivedKept (inOrder : ∀ key ∈ kept, key ∈ (run capacity (ops ++ [op])).order)
          : ∀ key ∈ kept, ∃ arrival, PresentSince capacity (ops ++ [op]) key arrival := by
        intro key member
        obtain ⟨arrival, since⟩ := arrived key (sublist.subset member)
        exact ⟨arrival, since.append (still key (inOrder key member))⟩
      have orderedKept (inOrder : ∀ key ∈ kept, key ∈ (run capacity (ops ++ [op])).order)
          : kept.Pairwise (Longer capacity (ops ++ [op])) :=
        (ordered.sublist sublist).imp_of_mem fun memberOld memberRecent longer =>
          longer.append (still _ (inOrder _ memberOld)) (still _ (inOrder _ memberRecent))
      rcases shape with same | ⟨key, fresh, same⟩
      · have inOrder : ∀ key ∈ kept, key ∈ (run capacity (ops ++ [op])).order :=
          fun _ member => same ▸ member
        rw [same]
        exact ⟨arrivedKept inOrder, orderedKept inOrder⟩
      · have inOrder : ∀ key ∈ kept, key ∈ (run capacity (ops ++ [op])).order :=
          fun _ member => same ▸ List.mem_append_left _ member
        have isThere : key ∈ (run capacity (ops ++ [op])).order :=
          same ▸ List.mem_append_right _ List.mem_cons_self
        have since := presentSince_append_of_notMem fresh (still key isThere)
        rw [same]
        refine ⟨fun k member => ?_, ?_⟩
        · rcases List.mem_append.mp member with old | new
          · exact arrivedKept inOrder k old
          · exact ⟨ops.length, List.mem_singleton.mp new ▸ since⟩
        · refine List.pairwise_append.mpr
            ⟨orderedKept inOrder, List.pairwise_singleton _ _, fun old memberOld k isKey => ?_⟩
          obtain rfl := List.mem_singleton.mp isKey
          obtain ⟨arrival, sinceOld⟩ := arrived old (sublist.subset memberOld)
          exact ⟨arrival, ops.length, sinceOld.append (still old (inOrder old memberOld)), since,
            sinceOld.past⟩

/-- A value that is there is the one inserted last, by induction on the operations. -/
theorem lookup_run (positive : 1 ≤ capacity) {ops : List (CacheOp K V)} {key : K} {value : V}
    (found : (run capacity ops).map.lookup key = some value)
    : lastInserted key ops = some value := by
  induction ops using List.reverseRecOn generalizing value with
  | nil => simp [run, new] at found
  | append_singleton ops op ih =>
      rw [run_append] at found
      rw [lastInserted_append]
      have either := lookup_apply (inStep_run positive ops) found
      cases isInserted : op.inserted key with
      | some inserted => rwa [isInserted] at either
      | none =>
          rw [isInserted, Option.none_or] at either
          rw [Option.none_or]
          exact ih either

/-- After every sequence of operations on a cache with room for one entry or more: the order
lists exactly the keys of the map, each once; there are no more than the capacity; what is read
under a key that is there is the value inserted last; an insertion under such a key evicts
nothing, nor does the insertion of another key where there is room; and its insertion into a full
cache evicts exactly the key that has been there longest.
-/
theorem boundedCache_run (positive : 1 ≤ capacity) (ops : List (CacheOp K V))
    : Behaves capacity ops (run capacity ops) := by
  have inStep := inStep_run positive ops
  have bounded := inStep.bounded
  rw [capacity_run] at bounded
  refine
    { nodup := inStep.nodup
      mem_order := inStep.mem_order
      bounded := inStep.len_eq ▸ bounded
      latest := fun key member => ?_
      inPlace := fun key member value other => ?_
      added := fun key value fresh room other => ?_
      evicted := fun key value fresh full => ?_
      removed := fun key other => FinMap.lookup_erase_eq _ key other
      cleared := fun key => Finmap.lookup_empty key }
  · obtain ⟨value, found⟩ := Finmap.mem_iff.mp member
    exact ⟨value, found, lookup_run positive found⟩
  · rcases insert_cases inStep key value with ⟨_, same⟩ | ⟨fresh, _⟩
    · rw [same, Finmap.mem_insert]
      exact ⟨fun either => either.elim (fun isKey => isKey ▸ member) id, Or.inr⟩
    · exact absurd member fresh
  · rcases insert_cases inStep key value with ⟨known, _⟩ | ⟨_, ⟨_, same⟩ | ⟨_, _, _, full, _⟩⟩
    · exact absurd known fresh
    · rw [same, Finmap.mem_insert]
    · rw [← inStep.len_eq, capacity_run] at full
      exact absurd full room.ne
  · rcases insert_cases inStep key value with ⟨known, _⟩
      | ⟨_, ⟨room, _⟩ | ⟨oldest, rest, order, -, same⟩⟩
    · exact absurd known fresh
    · rw [← inStep.len_eq, full, capacity_run] at room
      exact absurd room (Nat.lt_irrefl _)
    · have ordered := (ordered_run positive ops).2
      rw [order] at ordered
      refine ⟨oldest, ?_, fun other member different => ?_, fun other => ?_⟩
      · exact (inStep.mem_order oldest).mp (order ▸ List.mem_cons_self)
      · have listed := (inStep.mem_order other).mpr member
        rw [order] at listed
        exact (List.pairwise_cons.mp ordered).1 other
          ((List.mem_cons.mp listed).resolve_left different)
      · rw [same, Finmap.mem_insert, Finmap.mem_erase, and_comm (a := other ≠ oldest)]

/-- An entry that is inserted again keeps its place, so the next new one evicts it. -/
def reinsertion : List (CacheOp Nat Nat) := [.insert 1 10, .insert 2 20, .insert 1 30]

example : ((run 2 reinsertion).insert 3 40).order = [2, 3] := by decide

theorem boundedCache_run_reinsertion : Behaves 2 reinsertion (run 2 reinsertion) :=
  boundedCache_run (by decide) reinsertion

end BoundedCache

end VeloChain
