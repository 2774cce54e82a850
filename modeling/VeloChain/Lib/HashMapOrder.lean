import Mathlib.Data.Finmap
import Mathlib.Data.List.Sort

/-! Finite maps whose iteration order is chosen from outside.
A hash map is its content: two maps with the same entries are equal. The order in which it
is iterated is a separate value, an `IterationOrder`, so that a statement can range over
every order. In-place updates of single entries do not depend on it.
-/

/-- Finite maps from `K` to `V`, equal when they have the same entries. -/
abbrev FinMap (K V : Type*) := Finmap fun _ : K => V

/-- A way to iterate maps: for each map a duplicate-free list of exactly its keys. -/
structure IterationOrder (K V : Type*) where
  keys : FinMap K V → List K
  nodup : ∀ m, (keys m).Nodup
  mem_keys : ∀ m k, k ∈ keys m ↔ k ∈ m

/-- Every map can be walked over. -/
theorem IterationOrder.nonempty (K V : Type*) : Nonempty (IterationOrder K V) :=
  ⟨{ keys := fun m => m.keys.toList
     nodup := fun m => m.keys.nodup_toList
     mem_keys := fun _ _ => Finset.mem_toList.trans Finmap.mem_keys }⟩

/-- The same walk from the other end. -/
def IterationOrder.reversed {K V : Type*} (order : IterationOrder K V)
    : IterationOrder K V where
  keys m := (order.keys m).reverse
  nodup m := List.nodup_reverse.mpr (order.nodup m)
  mem_keys m k := List.mem_reverse.trans (order.mem_keys m k)

/-- The walk that starts with one of the keys, if the map has it. -/
def IterationOrder.startingWith {K V : Type*} [DecidableEq K] (order : IterationOrder K V)
    (first : K) : IterationOrder K V where
  keys m := if first ∈ m then first :: (order.keys m).erase first else order.keys m
  nodup m := by
    split
    next =>
      exact List.nodup_cons.mpr ⟨(order.nodup m).not_mem_erase, (order.nodup m).erase first⟩
    next => exact order.nodup m
  mem_keys m k := by
    split
    next known =>
      rw [List.mem_cons, (order.nodup m).mem_erase_iff, order.mem_keys]
      constructor
      · rintro (rfl | ⟨_, member⟩)
        · exact known
        · exact member
      · intro member
        by_cases same : k = first
        · exact Or.inl same
        · exact Or.inr ⟨same, member⟩
    next => exact order.mem_keys m k

namespace FinMap

variable {K V : Type*}

/-- A sort puts an element first that comes before all later ones and that no earlier one may
stand before, by induction on the earlier ones.
-/
theorem insertionSort_of_leads {α : Type*} {r : α → α → Prop} [DecidableRel r]
    {earlier later : List α} {a : α} (notBefore : ∀ x ∈ earlier, ¬ r x a)
    (before : ∀ x ∈ later, r a x)
    : ∃ rest, (earlier ++ a :: later).insertionSort r = a :: rest := by
  induction earlier with
  | nil =>
      refine ⟨later.insertionSort r, ?_⟩
      rw [List.nil_append, List.insertionSort_cons]
      cases sorted : later.insertionSort r with
      | nil => rfl
      | cons first rest =>
          have member : first ∈ later.insertionSort r := sorted ▸ List.mem_cons_self
          exact List.orderedInsert_cons_of_le r rest
            (before first ((List.mem_insertionSort r).mp member))
  | cons x earlier ih =>
      obtain ⟨rest, sorted⟩ := ih (fun y member => notBefore y (List.mem_cons_of_mem x member))
      refine ⟨rest.orderedInsert r x, ?_⟩
      rw [List.cons_append, List.insertionSort_cons, sorted]
      exact List.orderedInsert_of_not_le r rest (notBefore x List.mem_cons_self)

section SortedKeys

variable (rank : K → Nat)

theorem insertionSort_perm_eq (inj : rank.Injective) {left right : List K}
    (h : left.Perm right)
    : left.insertionSort (fun a b => rank a ≤ rank b)
      = right.insertionSort (fun a b => rank a ≤ rank b) := by
  have total : Std.Total (fun a b : K => rank a ≤ rank b) := ⟨fun a b => Nat.le_total _ _⟩
  have trans : IsTrans K (fun a b : K => rank a ≤ rank b) := ⟨fun a b c => Nat.le_trans⟩
  have same := ((List.perm_insertionSort (fun a b : K => rank a ≤ rank b) left).trans h).trans
    (List.perm_insertionSort (fun a b : K => rank a ≤ rank b) right).symm
  exact same.eq_of_pairwise
    (fun a b _ _ hab hba => inj (Nat.le_antisymm hab hba))
    (List.pairwise_insertionSort _ left) (List.pairwise_insertionSort _ right)

/-- The keys of a map from the lowest to the highest rank. -/
def sortedKeys (inj : rank.Injective) (m : FinMap K V) : List K :=
  Quot.liftOn m.keys.val (List.insertionSort (fun a b => rank a ≤ rank b))
    (fun _ _ h => insertionSort_perm_eq rank inj h)

variable {rank} {inj : rank.Injective}

theorem sortedKeys_coe (m : FinMap K V)
    : (sortedKeys rank inj m : Multiset K) = m.keys.val := by
  unfold sortedKeys
  obtain ⟨l, hl⟩ := Quot.exists_rep m.keys.val
  rw [← hl]
  exact Quot.sound (List.perm_insertionSort _ l)

@[simp]
theorem mem_sortedKeys (m : FinMap K V) (k : K) : k ∈ sortedKeys rank inj m ↔ k ∈ m := by
  rw [← Multiset.mem_coe, sortedKeys_coe, Finset.mem_val, Finmap.mem_keys]

theorem nodup_sortedKeys (m : FinMap K V) : (sortedKeys rank inj m).Nodup := by
  rw [← Multiset.coe_nodup, sortedKeys_coe]
  exact m.keys.nodup

theorem pairwise_sortedKeys (m : FinMap K V)
    : (sortedKeys rank inj m).Pairwise (fun a b => rank a < rank b) := by
  have sorted : (sortedKeys rank inj m).Pairwise (fun a b => rank a ≤ rank b) := by
    have total : Std.Total (fun a b : K => rank a ≤ rank b) := ⟨fun a b => Nat.le_total _ _⟩
    have trans : IsTrans K (fun a b : K => rank a ≤ rank b) := ⟨fun a b c => Nat.le_trans⟩
    unfold sortedKeys
    obtain ⟨l, isRep⟩ := Quot.exists_rep m.keys.val
    rw [← isRep]
    exact List.pairwise_insertionSort _ l
  exact sorted.imp₂ (fun a b le ne => Nat.lt_of_le_of_ne le (fun same => ne (inj same)))
    (nodup_sortedKeys m)

end SortedKeys

/-- Iteration from the lowest to the highest rank, one of the possible orders. -/
def ascending (rank : K → Nat) (inj : rank.Injective) : IterationOrder K V where
  keys := sortedKeys rank inj
  nodup := nodup_sortedKeys
  mem_keys := mem_sortedKeys

variable [DecidableEq K]

theorem lookup_insert_eq (m : FinMap K V) (k k' : K) (v : V)
    : (m.insert k v).lookup k' = if k' = k then some v else m.lookup k' := by
  split
  next h => rw [h, Finmap.lookup_insert]
  next h => rw [Finmap.lookup_insert_of_ne _ h]

theorem lookup_erase_eq (m : FinMap K V) (k k' : K)
    : (m.erase k).lookup k' = if k' = k then none else m.lookup k' := by
  split
  next h => rw [h, Finmap.lookup_erase]
  next h => rw [Finmap.lookup_erase_ne h]

theorem keys_insert (m : FinMap K V) (k : K) (v : V)
    : (m.insert k v).keys = Insert.insert k m.keys := by
  ext k'
  simp only [Finmap.mem_keys, Finmap.mem_insert, Finset.mem_insert]

theorem erase_insert (m : FinMap K V) (k : K) (v : V) : (m.insert k v).erase k = m.erase k := by
  refine Finmap.ext_lookup (fun k' => ?_)
  rw [lookup_erase_eq, lookup_erase_eq, lookup_insert_eq]
  split <;> rfl

/-- Writing back the stored value changes nothing. -/
theorem insert_lookup_self {m : FinMap K V} {k : K} {v : V} (h : m.lookup k = some v)
    : m.insert k v = m := by
  refine Finmap.ext_lookup (fun k' => ?_)
  rw [lookup_insert_eq]
  split
  next same => rw [same, h]
  next => rfl

/-- Replace the value under `k` by `f` of it, if there is one. -/
def modify (k : K) (f : V → V) (m : FinMap K V) : FinMap K V :=
  match m.lookup k with
  | some v => m.insert k (f v)
  | none => m

theorem lookup_modify (k k' : K) (f : V → V) (m : FinMap K V)
    : (modify k f m).lookup k' = if k' = k then (m.lookup k').map f else m.lookup k' := by
  unfold modify
  split
  next v found =>
    rw [lookup_insert_eq]
    split
    next same => rw [same, found, Option.map_some]
    next => rfl
  next missing =>
    split
    next same => rw [same, missing, Option.map_none]
    next => rfl

theorem mem_modify {k k' : K} {f : V → V} {m : FinMap K V} : k' ∈ modify k f m ↔ k' ∈ m := by
  rw [← Finmap.lookup_isSome, ← Finmap.lookup_isSome, lookup_modify]
  split
  next => rw [Option.isSome_map]
  next => rfl

theorem modify_modify (k : K) (f g : V → V) (m : FinMap K V)
    : modify k g (modify k f m) = modify k (fun v => g (f v)) m := by
  refine Finmap.ext_lookup (fun k' => ?_)
  rw [lookup_modify, lookup_modify, lookup_modify]
  split
  next => rw [Option.map_map]; rfl
  next => rfl

/-- Update the entries under the listed keys one after another. -/
def modifyAll (keys : List K) (f : V → V) (m : FinMap K V) : FinMap K V :=
  keys.foldl (fun m k => modify k f m) m

/-- A loop over distinct keys updates each listed entry once, by induction on the list. -/
theorem lookup_modifyAll {keys : List K} (nodup : keys.Nodup) (f : V → V) (m : FinMap K V)
    (k : K)
    : (modifyAll keys f m).lookup k
      = if k ∈ keys then (m.lookup k).map f else m.lookup k := by
  induction keys generalizing m with
  | nil => simp [modifyAll]
  | cons head rest ih =>
      obtain ⟨fresh, nodup⟩ := List.nodup_cons.mp nodup
      change (modifyAll rest f (modify head f m)).lookup k = _
      rw [ih nodup, lookup_modify]
      by_cases same : k = head
      · subst same
        simp [fresh]
      · simp [same]

theorem mem_modifyAll {keys : List K} {f : V → V} {m : FinMap K V} {k : K}
    : k ∈ modifyAll keys f m ↔ k ∈ m := by
  induction keys generalizing m with
  | nil => rfl
  | cons head rest ih => exact (@ih (modify head f m)).trans mem_modify

/-- Values that know their own keys: collecting the keys of those that pass a test is testing
the keys.
-/
theorem map_filter_filterMap_lookup {m : FinMap K V} {key : V → K}
    (filed : ∀ k v, m.lookup k = some v → key v = k) (test : V → Bool) (keys : List K)
    : ((keys.filterMap m.lookup).filter test).map key
      = keys.filter (fun k => (m.lookup k).any test) := by
  induction keys with
  | nil => rfl
  | cons k rest ih =>
      cases found : m.lookup k with
      | none =>
          simp only [List.filterMap_cons, found]
          rw [ih, List.filter_cons_of_neg (by simp [found])]
      | some v =>
          simp only [List.filterMap_cons, found]
          cases passes : test v with
          | false =>
              rw [List.filter_cons_of_neg (by simp [passes]), ih,
                List.filter_cons_of_neg (by simp [found, passes])]
          | true =>
              rw [List.filter_cons_of_pos passes, List.map_cons, ih, filed k v found,
                List.filter_cons_of_pos (by simp [found, passes])]

/-- The map with the given entries. -/
def ofEntries (entries : List (K × V)) : FinMap K V :=
  entries.foldr (fun entry m => m.insert entry.1 entry.2) ∅

theorem lookup_ofEntries_map (get : K → V) (keys : List K) (k : K)
    : (ofEntries (keys.map (fun k => (k, get k)))).lookup k
      = if k ∈ keys then some (get k) else none := by
  induction keys with
  | nil => rfl
  | cons head rest ih =>
      change ((ofEntries (rest.map (fun k => (k, get k)))).insert head (get head)).lookup k = _
      rw [lookup_insert_eq, ih]
      by_cases same : k = head
      · subst same
        simp
      · simp [same]

/-- The entries of a walk give the map back. -/
theorem ofEntries_walk (order : IterationOrder K V) (m : FinMap K V) (default : V)
    : ofEntries ((order.keys m).map (fun k => (k, (m.lookup k).getD default))) = m := by
  apply Finmap.ext_lookup
  intro k
  rw [lookup_ofEntries_map]
  split
  next member =>
    obtain ⟨v, found⟩ := Finmap.mem_iff.mp ((order.mem_keys m k).mp member)
    rw [found, Option.getD_some]
  next missing => exact (Finmap.lookup_eq_none.mpr (missing ∘ (order.mem_keys m k).mpr)).symm

end FinMap
