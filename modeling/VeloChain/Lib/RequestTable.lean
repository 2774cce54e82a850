import VeloChain.Lib.NumberMap

/-! Tables of pending requests under the numbers of a counter.
Requests are entered one after another, each under the next number. One that waits for too long
is taken off and entered again under a new number, or given up; each entry of the later table has
an entry of its own in the earlier one.
-/

namespace RequestTable

variable {R : Type*}

/-- All numbers in use are below the next one. -/
def Below (next : Nat) (table : FinMap Nat R) : Prop := ∀ id ∈ table, id < next

variable {table before after : FinMap Nat R} {next next' : Nat}

theorem below_empty (next : Nat) : Below next (∅ : FinMap Nat R) :=
  fun _ member => absurd member Finmap.notMem_empty

theorem Below.mono (below : Below next table) (le : next ≤ next') : Below next' table :=
  fun id member => Nat.lt_of_lt_of_le (below id member) le

theorem Below.of_lookup (below : Below next table) {id : Nat} {request : R}
    (found : table.lookup id = some request)
    : id < next :=
  below id (Finmap.mem_of_lookup_eq_some found)

/-- A table whose entries are all in another one has no other numbers. -/
theorem Below.of_lookups (below : Below next before)
    (keeps : ∀ id request, after.lookup id = some request → before.lookup id = some request)
    : Below next after := by
  intro id member
  obtain ⟨request, found⟩ := Finmap.mem_iff.mp member
  exact below.of_lookup (keeps id request found)

/-- The next number is free. -/
theorem Below.lookup_next (below : Below next table) : table.lookup next = none :=
  Finmap.lookup_eq_none.mpr (fun member => Nat.lt_irrefl next (below next member))

theorem Below.insert (below : Below next table) (request : R)
    : Below (next + 1) (table.insert next request) := by
  intro id member
  rcases Finmap.mem_insert.mp member with rfl | old
  · exact Nat.lt_succ_self _
  · exact Nat.lt_succ_of_lt (below id old)

theorem Below.erase (below : Below next table) (id : Nat) : Below next (table.erase id) :=
  fun other member => below other (Finmap.mem_erase.mp member).2

theorem card_insert_next (below : Below next table) (request : R)
    : (table.insert next request).keys.card = table.keys.card + 1 := by
  rw [FinMap.keys_insert, Finset.card_insert_of_notMem]
  exact Finmap.mem_keys.not.mpr (Finmap.lookup_eq_none.mp below.lookup_next)

/-- A table whose entries are all in another one is not larger. -/
theorem card_le_of_lookup
    (keeps : ∀ id request, after.lookup id = some request → before.lookup id = some request)
    : after.keys.card ≤ before.keys.card := by
  refine Finset.card_le_card (fun id member => ?_)
  obtain ⟨request, found⟩ := Finmap.mem_iff.mp (Finmap.mem_keys.mp member)
  exact Finmap.mem_keys.mpr (Finmap.mem_of_lookup_eq_some (keeps id request found))

-----------------------------------------------------------------------------------------
-- Requests that are entered
-----------------------------------------------------------------------------------------

/-- Requests of a kind that were entered one after another, under the listed numbers. -/
structure Entered (kind : R → Prop) (before : FinMap Nat R) (next : Nat) (ids : List Nat)
    (after : FinMap Nat R) (next' : Nat) : Prop where
  range : ids = List.range' next ids.length
  ends : next' = next + ids.length
  size : after.keys.card = before.keys.card + ids.length
  below : Below next' after
  entry
    : ∀ id request, after.lookup id = some request →
        before.lookup id = some request ∨ kind request

variable {kind : R → Prop} {ids : List Nat}

theorem entered_refl (below : Below next before) : Entered kind before next [] before next :=
  ⟨rfl, rfl, rfl, below, fun _ _ => Or.inl⟩

/-- One more request is entered. -/
theorem Entered.insert (entered : Entered kind before next ids after next') {request : R}
    (isKind : kind request)
    : Entered kind before next (ids ++ [next']) (after.insert next' request) (next' + 1) where
  range := by
    rw [List.length_append, List.length_singleton, ← List.range'_append_1, ← entered.range,
      entered.ends]
    rfl
  ends := by rw [List.length_append, ← Nat.add_assoc, ← entered.ends]; rfl
  size := by
    rw [List.length_append, ← Nat.add_assoc, ← entered.size]
    exact card_insert_next entered.below request
  below := entered.below.insert request
  entry := by
    intro id request' found
    rw [FinMap.lookup_insert_eq] at found
    split at found
    next => exact Or.inr (Option.some.inj found ▸ isKind)
    next => exact entered.entry id request' found

theorem Entered.later (entered : Entered kind before next ids after next') : next ≤ next' := by
  rw [entered.ends]
  exact Nat.le_add_right _ _

theorem Entered.nodup (entered : Entered kind before next ids after next') : ids.Nodup := by
  rw [entered.range]
  exact List.nodup_range'

/-- The listed numbers are those from the earlier counter to the later one. -/
theorem Entered.mem (entered : Entered kind before next ids after next') {id : Nat}
    (member : id ∈ ids)
    : next ≤ id ∧ id < next' := by
  rw [entered.range, List.mem_range'_1] at member
  rwa [entered.ends]

-----------------------------------------------------------------------------------------
-- Requests that are entered again
-----------------------------------------------------------------------------------------

/-- Take a request off the table and enter it again under the next number, unless it is given
up.
-/
def renew (again : R → Option R) (progress : FinMap Nat R × Nat) (id : Nat)
    : FinMap Nat R × Nat :=
  match progress.1.lookup id with
  | none => progress
  | some request =>
      match again request with
      | none => (progress.1.erase id, progress.2)
      | some request => ((progress.1.erase id).insert progress.2 request, progress.2 + 1)

/-- Each entry of the later table is an entry of the earlier one, or one of the given ones that
was entered again; no two have the same origin. The given ones are gone, and an entry that is
missing was given up.
-/
structure Renewed (again : R → Option R) (ids : List Nat) (before : FinMap Nat R) (next : Nat)
    (after : FinMap Nat R) (next' : Nat) : Prop where
  later : next ≤ next'
  below : Below next' after
  origins
    : ∃ origin : Nat → Nat,
        Set.InjOn origin {id | id ∈ after}
        ∧ ∀ id request, after.lookup id = some request →
            ∃ old,
              before.lookup (origin id) = some old
              ∧ (id = origin id ∧ request = old ∨ next ≤ id ∧ again old = some request)
  gone : ∀ id ∈ ids, id < next ∧ id ∉ after
  kept
    : ∀ id old, before.lookup id = some old →
        after.lookup id = some old
        ∨ id ∈ ids
          ∧ (again old = none
            ∨ ∃ id' request,
                next ≤ id' ∧ after.lookup id' = some request ∧ again old = some request)

variable {again : R → Option R}

theorem renewed_refl (below : Below next before) : Renewed again [] before next before next where
  later := Nat.le_refl _
  below := below
  origins := ⟨id, Set.injOn_id _, fun _ request found => ⟨request, found, Or.inl ⟨rfl, rfl⟩⟩⟩
  gone := fun _ member => absurd member List.not_mem_nil
  kept := fun _ _ found => Or.inl found

/-- A number that is free already may be listed. -/
theorem Renewed.listed (renewed : Renewed again ids before next table next') {id : Nat}
    (old : id < next) (free : id ∉ table)
    : Renewed again (ids ++ [id]) before next table next' where
  later := renewed.later
  below := renewed.below
  origins := renewed.origins
  gone := List.forall_mem_append.mpr
    ⟨renewed.gone, List.forall_mem_singleton.mpr ⟨old, free⟩⟩
  kept := fun id' entry known =>
    (renewed.kept id' entry known).imp_right (And.imp_left (List.mem_append_left _))

/-- One more request is given up. -/
theorem Renewed.giveUp (renewed : Renewed again ids before next table next') {id : Nat}
    (old : id < next) {request : R} (found : table.lookup id = some request)
    (ends : again request = none)
    : Renewed again (ids ++ [id]) before next (table.erase id) next' := by
  obtain ⟨origin, apart, origins⟩ := renewed.origins
  refine ⟨renewed.later, renewed.below.erase id, ⟨origin, ?_, ?_⟩, ?_, ?_⟩
  · exact apart.mono (fun id' member => (Finmap.mem_erase.mp member).2)
  · intro id' entry known
    rw [FinMap.lookup_erase_eq] at known
    split at known
    next => simp at known
    next => exact origins id' entry known
  · refine List.forall_mem_append.mpr
      ⟨fun id' listed => ?_, List.forall_mem_singleton.mpr ⟨old, Finmap.notMem_erase_self⟩⟩
    obtain ⟨isOld, free⟩ := renewed.gone id' listed
    exact ⟨isOld, fun member => free (Finmap.mem_erase.mp member).2⟩
  · intro id' entry known
    simp only [FinMap.lookup_erase_eq]
    rcases renewed.kept id' entry known with same | ⟨member, gone⟩
    · by_cases here : id' = id
      · subst here
        obtain rfl := Option.some.inj (found.symm.trans same)
        exact Or.inr ⟨List.mem_append_right _ List.mem_cons_self, Or.inl ends⟩
      · exact Or.inl (by rw [if_neg here, same])
    · refine Or.inr ⟨List.mem_append_left _ member, gone.imp_right ?_⟩
      rintro ⟨new, entry', above, present, renews⟩
      exact ⟨new, entry', above, by rw [if_neg (by omega), present], renews⟩

/-- The new number stands for the old one, which is no number of the table any more. -/
theorem injOn_reenter {origin : Nat → Nat} {id new : Nat} {request : R}
    (apart : Set.InjOn origin {id | id ∈ table}) (isId : id ∈ table)
    : Set.InjOn (fun id' => if id' = new then origin id else origin id')
        {id' | id' ∈ (table.erase id).insert new request} := by
  have others {id' : Nat} (member : id' ∈ (table.erase id).insert new request)
      (other : id' ≠ new)
      : id' ∈ table ∧ id' ≠ id := by
    have rest := (Finmap.mem_insert.mp member).resolve_left other
    exact ⟨(Finmap.mem_erase.mp rest).2, (Finmap.mem_erase.mp rest).1⟩
  intro left isLeft right isRight same
  simp only at same
  split at same
  next leftNew =>
    split at same
    next rightNew => rw [leftNew, rightNew]
    next rightOld =>
      obtain ⟨known, different⟩ := others isRight rightOld
      exact absurd (apart isId known same).symm different
  next leftOld =>
    obtain ⟨known, different⟩ := others isLeft leftOld
    split at same
    next rightNew => exact absurd (apart known isId same) different
    next rightOld => exact apart known (others isRight rightOld).1 same

/-- One more request is entered again. -/
theorem Renewed.reenter (renewed : Renewed again ids before next table next') {id : Nat}
    (old : id < next) {request request' : R} (found : table.lookup id = some request)
    (renews : again request = some request')
    : Renewed again (ids ++ [id]) before next ((table.erase id).insert next' request')
        (next' + 1) := by
  obtain ⟨origin, apart, origins⟩ := renewed.origins
  have isId : id ∈ table := Finmap.mem_of_lookup_eq_some found
  have lookup (id' : Nat)
      : ((table.erase id).insert next' request').lookup id'
        = if id' = next' then some request'
          else if id' = id then none else table.lookup id' := by
    rw [FinMap.lookup_insert_eq, FinMap.lookup_erase_eq]
  refine ⟨Nat.le_succ_of_le renewed.later, (renewed.below.erase id).insert request',
    ⟨fun id' => if id' = next' then origin id else origin id', ?_, ?_⟩, ?_, ?_⟩
  · exact injOn_reenter apart isId
  · intro id' entry known
    rw [lookup] at known
    split at known
    next here =>
      obtain rfl := Option.some.inj known
      obtain ⟨first, isFirst, ⟨_, rfl⟩ | ⟨above, _⟩⟩ := origins id request found
      · exact ⟨request, (congrArg before.lookup (if_pos here)).trans isFirst,
          Or.inr ⟨here ▸ renewed.later, renews⟩⟩
      · omega
    next other =>
      split at known
      next => simp at known
      next =>
        obtain ⟨first, isFirst, same⟩ := origins id' entry known
        have isOld : (if id' = next' then origin id else origin id') = origin id' := if_neg other
        exact ⟨first, (congrArg before.lookup isOld).trans isFirst,
          same.imp_left (And.imp_left (fun own => own.trans isOld.symm))⟩
  · have later := renewed.later
    have erased {id' : Nat} (isOld : id' < next) (free : id' ∉ table.erase id)
        : id' < next ∧ id' ∉ (table.erase id).insert next' request' := by
      refine ⟨isOld, fun member => ?_⟩
      rcases Finmap.mem_insert.mp member with rfl | known
      · omega
      · exact free known
    refine List.forall_mem_append.mpr ⟨fun id' listed => ?_,
      List.forall_mem_singleton.mpr (erased old Finmap.notMem_erase_self)⟩
    obtain ⟨isOld, free⟩ := renewed.gone id' listed
    exact erased isOld (fun member => free (Finmap.mem_erase.mp member).2)
  · intro id' entry known
    simp only [lookup]
    rcases renewed.kept id' entry known with same | ⟨member, gone⟩
    · have other : id' ≠ next' := Nat.ne_of_lt (renewed.below.of_lookup same)
      by_cases here : id' = id
      · subst here
        obtain rfl := Option.some.inj (found.symm.trans same)
        exact Or.inr ⟨List.mem_append_right _ List.mem_cons_self,
          Or.inr ⟨next', request', renewed.later, if_pos rfl, renews⟩⟩
      · exact Or.inl (by rw [if_neg other, if_neg here, same])
    · refine Or.inr ⟨List.mem_append_left _ member, gone.imp_right ?_⟩
      rintro ⟨new, entry', above, present, renews'⟩
      have other : new ≠ next' := Nat.ne_of_lt (renewed.below.of_lookup present)
      exact ⟨new, entry', above, by rw [if_neg other, if_neg (by omega), present], renews'⟩

/-- One more request, with a number of the earlier table, is given up or entered again. -/
theorem Renewed.renew (renewed : Renewed again ids before next table next') {id : Nat}
    (old : id < next)
    : Renewed again (ids ++ [id]) before next
        (RequestTable.renew again (table, next') id).1
        (RequestTable.renew again (table, next') id).2 := by
  unfold RequestTable.renew
  cases found : table.lookup id with
  | none =>
      exact renewed.listed old (Finmap.lookup_eq_none.mp found)
  | some request =>
      cases renews : again request with
      | none =>
          simp only [renews]
          exact renewed.giveUp old found renews
      | some request' =>
          simp only [renews]
          exact renewed.reenter old found renews

/-- The requests of a list are entered again one after another, by induction on the list. -/
theorem renewed_foldl (below : Below next before) (old : ∀ id ∈ ids, id < next)
    : Renewed again ids before next (ids.foldl (renew again) (before, next)).1
        (ids.foldl (renew again) (before, next)).2 := by
  have extends_ (earlier : List Nat) (progress : FinMap Nat R × Nat)
      (renewed : Renewed again earlier before next progress.1 progress.2)
      : Renewed again (earlier ++ ids) before next (ids.foldl (renew again) progress).1
          (ids.foldl (renew again) progress).2 := by
    induction ids generalizing earlier progress with
    | nil => rwa [List.append_nil]
    | cons id rest ih =>
        have first := renewed.renew (old id List.mem_cons_self)
        have later := ih (fun id' member => old id' (List.mem_cons_of_mem id member)) _ _ first
        rwa [List.append_assoc, List.singleton_append] at later
  exact extends_ [] (before, next) (renewed_refl below)

/-- A renewed table is not larger. -/
theorem Renewed.card_le (renewed : Renewed again ids before next after next')
    : after.keys.card ≤ before.keys.card := by
  obtain ⟨origin, apart, origins⟩ := renewed.origins
  refine Finset.card_le_card_of_injOn origin (fun id member => ?_) (fun id member id' member' => ?_)
  · obtain ⟨request, found⟩ := Finmap.mem_iff.mp (Finmap.mem_keys.mp (Finset.mem_coe.mp member))
    obtain ⟨old, known, _⟩ := origins id request found
    exact Finset.mem_coe.mpr (Finmap.mem_keys.mpr (Finmap.mem_of_lookup_eq_some known))
  · exact apart (Finmap.mem_keys.mp (Finset.mem_coe.mp member))
      (Finmap.mem_keys.mp (Finset.mem_coe.mp member'))

end RequestTable
