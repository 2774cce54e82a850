import Mathlib.Data.Finset.Card
import VeloChain.Lib.HashMapOrder

/-! Loops over the entries of a map: counting and keeping those that pass a test, and updates
and tests that may fail.
-/

namespace FinMap

variable {K V : Type*}

/-- The entries whose value is kept. -/
def filterValues (keep : V → Bool) (m : FinMap K V) : FinMap K V where
  entries := m.entries.filter (fun entry => keep entry.2)
  nodupKeys := by
    obtain ⟨entries, nodupKeys⟩ := m
    induction entries using Quot.inductionOn with
    | h entries =>
        exact List.NodupKeys.sublist List.filter_sublist nodupKeys

/-- Update every value. -/
def mapValues (f : V → V) (m : FinMap K V) : FinMap K V where
  entries := m.entries.map (fun entry => ⟨entry.1, f entry.2⟩)
  nodupKeys := by
    obtain ⟨entries, nodupKeys⟩ := m
    induction entries using Quot.inductionOn with
    | h entries =>
        have sameKeys
            : (entries.map (fun entry : Sigma fun _ : K => V =>
                (⟨entry.1, f entry.2⟩ : Sigma fun _ : K => V))).keys
              = entries.keys := by
          unfold List.keys
          rw [List.map_map]
          rfl
        exact (congrArg List.Nodup sameKeys).mpr nodupKeys

variable [DecidableEq K]

theorem lookup_mapValues (f : V → V) (m : FinMap K V) (k : K)
    : (m.mapValues f).lookup k = (m.lookup k).map f := by
  apply Option.ext
  intro v
  rw [Finmap.lookup_eq_some_iff, Option.map_eq_some_iff]
  constructor
  · intro member
    obtain ⟨entry, isEntry, same⟩ := Multiset.mem_map.mp member
    obtain ⟨rfl, rfl⟩ := Sigma.mk.inj same
    exact ⟨entry.2, Finmap.lookup_eq_some_iff.mpr isEntry, rfl⟩
  · rintro ⟨w, found, rfl⟩
    exact Multiset.mem_map.mpr ⟨⟨k, w⟩, Finmap.lookup_eq_some_iff.mp found, rfl⟩

theorem lookup_filterValues (keep : V → Bool) (m : FinMap K V) (k : K)
    : (m.filterValues keep).lookup k = (m.lookup k).filter keep := by
  apply Option.ext
  intro v
  rw [Finmap.lookup_eq_some_iff, Option.filter_eq_some_iff, Finmap.lookup_eq_some_iff]
  exact Multiset.mem_filter

-----------------------------------------------------------------------------------------
-- Counting
-----------------------------------------------------------------------------------------

/-- How many values pass a test. -/
def count (test : V → Bool) (m : FinMap K V) : Nat :=
  (m.keys.filter (fun k => (m.lookup k).any test)).card

theorem mem_filter_count {test : V → Bool} {m : FinMap K V} {k : K}
    : k ∈ m.keys.filter (fun k => (m.lookup k).any test) ↔ (m.lookup k).any test := by
  rw [Finset.mem_filter, Finmap.mem_keys, and_iff_right_iff_imp]
  intro passes
  obtain ⟨v, found, _⟩ := (Option.any_eq_true _ _).mp passes
  exact Finmap.mem_of_lookup_eq_some found

/-- What passes after passed before, so there are not more. -/
theorem count_le_count {test test' : V → Bool} {m m' : FinMap K V}
    (le : ∀ k, (m.lookup k).any test → (m'.lookup k).any test')
    : count test m ≤ count test' m' := by
  apply Finset.card_le_card
  intro k member
  exact mem_filter_count.mpr (le k (mem_filter_count.mp member))

/-- There are more when one passes that did not pass before. -/
theorem count_lt_count {test test' : V → Bool} {m m' : FinMap K V}
    (le : ∀ k, (m.lookup k).any test → (m'.lookup k).any test') {k : K}
    (passes : (m'.lookup k).any test') (failed : ¬ (m.lookup k).any test)
    : count test m < count test' m' := by
  apply Finset.card_lt_card
  rw [Finset.ssubset_iff_of_subset fun k member =>
    mem_filter_count.mpr (le k (mem_filter_count.mp member))]
  exact ⟨k, mem_filter_count.mpr passes, mem_filter_count.not.mpr failed⟩

theorem count_congr {test test' : V → Bool} {m m' : FinMap K V}
    (same : ∀ k, (m.lookup k).any test = (m'.lookup k).any test')
    : count test m = count test' m' :=
  Nat.le_antisymm (count_le_count fun k => (same k) ▸ id)
    (count_le_count fun k => (same k) ▸ id)

/-- A new entry is counted when it passes. -/
theorem count_insert_of_notMem {test : V → Bool} {m : FinMap K V} {k : K}
    (fresh : k ∉ m) (v : V)
    : count test (m.insert k v) = count test m + (if test v then 1 else 0) := by
  have missing : m.lookup k = none := Finmap.lookup_eq_none.mpr fresh
  have notCounted : k ∉ m.keys.filter (fun k => (m.lookup k).any test) := by
    rw [mem_filter_count, missing]
    exact Bool.false_ne_true
  split
  next passes =>
    have more
        : (m.insert k v).keys.filter (fun k' => ((m.insert k v).lookup k').any test)
          = Insert.insert k (m.keys.filter (fun k' => (m.lookup k').any test)) := by
      ext k'
      rw [mem_filter_count, Finset.mem_insert, mem_filter_count, lookup_insert_eq]
      split
      next same => simp [same, passes]
      next other => simp [other]
    rw [count, more, Finset.card_insert_of_notMem notCounted, count]
  next fails =>
    apply count_congr
    intro k'
    rw [lookup_insert_eq]
    split
    next same =>
      subst same
      simp [missing, fails]
    next => rfl

/-- An entry that is erased was counted when it passed. -/
theorem count_erase {test : V → Bool} {m : FinMap K V} {k : K} {v : V}
    (found : m.lookup k = some v)
    : count test (m.erase k) + (if test v then 1 else 0) = count test m := by
  have again : (m.erase k).insert k v = m := by
    refine Finmap.ext_lookup (fun k' => ?_)
    rw [lookup_insert_eq, lookup_erase_eq]
    split
    next same => rw [same, found]
    next => rfl
  rw [← count_insert_of_notMem Finmap.notMem_erase_self, again]

/-- One more entry counts for one more at most. -/
theorem count_insert_le (test : V → Bool) (m : FinMap K V) (k : K) (v : V)
    : count test (m.insert k v) ≤ count test m + (if test v then 1 else 0) := by
  have smaller : count test (m.erase k) ≤ count test m := by
    apply count_le_count
    intro k'
    rw [lookup_erase_eq]
    split
    next => exact fun passes => absurd passes Bool.false_ne_true
    next => exact id
  have again : m.insert k v = (m.erase k).insert k v := by
    refine Finmap.ext_lookup (fun k' => ?_)
    rw [lookup_insert_eq, lookup_insert_eq, lookup_erase_eq]
    split
    next => rfl
    next => rfl
  have fresh : k ∉ m.erase k := fun member =>
    absurd rfl (Finmap.mem_erase.mp member).1
  rw [again, count_insert_of_notMem fresh]
  omega

-----------------------------------------------------------------------------------------
-- Updates that may fail
-----------------------------------------------------------------------------------------

/-- Update the entries under the listed keys one after another; the first update that fails ends
the loop.
-/
def tryModifyAll (f : V → Option V) : List K → FinMap K V → Option (FinMap K V)
  | [], m => some m
  | k :: rest, m =>
      match m.lookup k with
      | none => tryModifyAll f rest m
      | some v => (f v).bind (fun v => tryModifyAll f rest (m.insert k v))

/-- A loop over distinct keys updates each listed entry once, by induction on the list. -/
theorem lookup_tryModifyAll {f : V → Option V} {keys : List K} (nodup : keys.Nodup)
    {m m' : FinMap K V} (done : tryModifyAll f keys m = some m') (k : K)
    : m'.lookup k = if k ∈ keys then (m.lookup k).bind f else m.lookup k := by
  induction keys generalizing m with
  | nil =>
      obtain rfl := Option.some.inj done
      simp
  | cons head rest ih =>
      obtain ⟨fresh, nodup⟩ := List.nodup_cons.mp nodup
      cases found : m.lookup head with
      | none =>
          simp only [tryModifyAll, found] at done
          rw [ih nodup done]
          by_cases same : k = head
          · subst same
            simp [fresh, found]
          · simp [same]
      | some v =>
          simp only [tryModifyAll, found] at done
          obtain ⟨v', updated, done⟩ := Option.bind_eq_some_iff.mp done
          rw [ih nodup done, lookup_insert_eq]
          by_cases same : k = head
          · subst same
            simp [fresh, found, updated]
          · simp [same]

/-- The loop removes no entry. -/
theorem mem_tryModifyAll {f : V → Option V} {keys : List K} {m m' : FinMap K V}
    (done : tryModifyAll f keys m = some m') {k : K} (member : k ∈ m)
    : k ∈ m' := by
  induction keys generalizing m with
  | nil => exact Option.some.inj done ▸ member
  | cons head rest ih =>
      cases found : m.lookup head with
      | none =>
          simp only [tryModifyAll, found] at done
          exact ih done member
      | some v =>
          simp only [tryModifyAll, found] at done
          obtain ⟨v', _, done⟩ := Option.bind_eq_some_iff.mp done
          exact ih done (Finmap.mem_insert.mpr (Or.inr member))

/-- The loop goes through when every entry can be updated. -/
theorem exists_tryModifyAll {f : V → Option V} {keys : List K} (nodup : keys.Nodup)
    {m : FinMap K V} (updates : ∀ k v, m.lookup k = some v → ∃ v', f v = some v')
    : ∃ m', tryModifyAll f keys m = some m' := by
  -- only the keys that are still to come matter
  have listed : ∀ k ∈ keys, ∀ v, m.lookup k = some v → ∃ v', f v = some v' :=
    fun k _ => updates k
  clear updates
  induction keys generalizing m with
  | nil => exact ⟨m, rfl⟩
  | cons head rest ih =>
      obtain ⟨fresh, nodup⟩ := List.nodup_cons.mp nodup
      have later := fun k member => listed k (List.mem_cons_of_mem head member)
      cases found : m.lookup head with
      | none =>
          simp only [tryModifyAll, found]
          exact ih nodup later
      | some v =>
          obtain ⟨v', updated⟩ := listed head List.mem_cons_self v found
          simp only [tryModifyAll, found, updated, Option.bind_some]
          apply ih nodup
          intro k member w isThere
          have other : k ≠ head := fun same => fresh (same ▸ member)
          rw [Finmap.lookup_insert_of_ne _ other] at isThere
          exact later k member w isThere

end FinMap

/-- Keep the items that pass a test; a test that fails to answer ends the loop. -/
def tryFilter {α : Type*} (test : α → Option Bool) : List α → Option (List α)
  | [] => some []
  | item :: rest =>
      (test item).bind (fun keep =>
        (tryFilter test rest).map (fun kept => if keep then item :: kept else kept))

/-- Where every test answers, the filter keeps exactly the items that pass. -/
theorem exists_tryFilter {α : Type*} {test : α → Option Bool} {items : List α}
    (answers : ∀ item ∈ items, (test item).isSome)
    : ∃ kept,
        tryFilter test items = some kept
        ∧ ∀ item, item ∈ kept ↔ item ∈ items ∧ test item = some true := by
  induction items with
  | nil => exact ⟨[], rfl, by simp⟩
  | cons first rest ih =>
      obtain ⟨here, later⟩ := List.forall_mem_cons.mp answers
      obtain ⟨keep, answer⟩ := Option.isSome_iff_exists.mp here
      obtain ⟨kept, done, members⟩ := ih later
      refine ⟨if keep then first :: kept else kept, by simp [tryFilter, answer, done], ?_⟩
      intro item
      cases keep with
      | false =>
          rw [if_neg Bool.false_ne_true, members, List.mem_cons]
          constructor
          · exact fun h => ⟨Or.inr h.1, h.2⟩
          · rintro ⟨rfl | member, passes⟩
            · rw [answer] at passes
              simp at passes
            · exact ⟨member, passes⟩
      | true =>
          rw [if_pos rfl, List.mem_cons, members, List.mem_cons]
          constructor
          · rintro (rfl | ⟨member, passes⟩)
            · exact ⟨Or.inl rfl, answer⟩
            · exact ⟨Or.inr member, passes⟩
          · rintro ⟨rfl | member, passes⟩
            · exact Or.inl rfl
            · exact Or.inr ⟨member, passes⟩
