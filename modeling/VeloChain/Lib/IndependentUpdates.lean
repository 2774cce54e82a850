import Mathlib.Data.List.Nodup

/-! Loops whose turns write different parts of one state, and walks that move values along. -/

namespace IndependentUpdates

variable {ι σ β α : Type*}

/-- What every turn leaves alone, the loop leaves alone. -/
theorem foldl_frame {body : σ → ι → σ} {view : σ → β} (items : List ι)
    (frame : ∀ i ∈ items, ∀ s, view (body s i) = view s) (s : σ)
    : view (items.foldl body s) = view s := by
  induction items generalizing s with
  | nil => rfl
  | cons i rest ih =>
      rw [List.foldl_cons, ih (fun j member => frame j (List.mem_cons_of_mem i member)),
        frame i List.mem_cons_self]

/-- A turn for each item that updates the part of this item, each from its own part alone, by
induction on the items.
-/
theorem foldl_view [DecidableEq ι] {body : σ → ι → σ} {view : σ → ι → β} {update : ι → β → β}
    (own : ∀ s i, view (body s i) i = update i (view s i))
    (other : ∀ s i j, i ≠ j → view (body s i) j = view s j) {items : List ι}
    (nodup : items.Nodup) (s : σ) {i : ι} (member : i ∈ items)
    : view (items.foldl body s) i = update i (view s i) := by
  induction items generalizing s with
  | nil => exact absurd member List.not_mem_nil
  | cons first rest ih =>
      obtain ⟨fresh, nodup⟩ := List.nodup_cons.mp nodup
      rw [List.foldl_cons]
      rcases List.mem_cons.mp member with rfl | later
      · have frame (j : ι) (there : j ∈ rest) (s : σ) : view (body s j) i = view s i :=
          other s j i (fun same => fresh (same ▸ there))
        rw [@foldl_frame ι σ β body (fun s => view s i) rest frame, own]
      · have different : first ≠ i := fun same => fresh (same ▸ later)
        rw [ih nodup _ later, other s first i different]

-----------------------------------------------------------------------------------------
-- Loops that write the positions of a vector
-----------------------------------------------------------------------------------------

variable {n : Nat}

/-- One turn of a loop that updates the position of its item in place. -/
def updateAt (place : ι → Fin n) (update : ι → α → α) (v : Vector α n) (i : ι) : Vector α n :=
  v.set (place i) (update i v[place i])

theorem updateAt_ne (place : ι → Fin n) (update : ι → α → α) (v : Vector α n) {i : ι}
    {j : Fin n} (different : place i ≠ j)
    : (updateAt place update v i)[j] = v[j] :=
  Vector.getElem_set_ne (place i).isLt j.isLt (fun same => different (Fin.ext same))

theorem foldl_updateAt [DecidableEq ι] {place : ι → Fin n} (inj : place.Injective)
    (update : ι → α → α) {items : List ι} (nodup : items.Nodup) (v : Vector α n) {i : ι}
    (member : i ∈ items)
    : (items.foldl (updateAt place update) v)[place i] = update i v[place i] := by
  refine @foldl_view ι _ α _ (updateAt place update) (fun v i => v[place i]) update ?_ ?_ items
    nodup v i member
  · intro v i
    exact Vector.getElem_set_self _
  · intro v i j different
    exact updateAt_ne place update v (fun same => different (inj same))

theorem foldl_updateAt_frame {place : ι → Fin n} (update : ι → α → α) {items : List ι}
    (v : Vector α n) {j : Fin n} (untouched : ∀ i ∈ items, place i ≠ j)
    : (items.foldl (updateAt place update) v)[j] = v[j] :=
  @foldl_frame ι _ α (updateAt place update) (fun v => v[j]) items
    (fun i member v => updateAt_ne place update v (untouched i member)) v

-----------------------------------------------------------------------------------------
-- Walks
-----------------------------------------------------------------------------------------

/-- One step of a walk: the value carried is changed and put down, the value found is taken. -/
def carry (reached : Vector α n × α) (step : Fin n × (α → α)) : Vector α n × α :=
  (reached.1.set step.1 (step.2 reached.2), reached.1[step.1])

@[simp]
theorem carry_visited (reached : Vector α n × α) (step : Fin n × (α → α))
    : (carry reached step).1[step.1] = step.2 reached.2 :=
  Vector.getElem_set_self _

/-- A walk leaves the positions alone that it does not visit. -/
theorem carry_frame (steps : List (Fin n × (α → α))) (reached : Vector α n × α) {i : Fin n}
    (unvisited : i ∉ steps.map Prod.fst)
    : (steps.foldl carry reached).1[i] = reached.1[i] := by
  refine @foldl_frame _ _ _ carry (fun reached => reached.1[i]) steps ?_ reached
  intro step member reached
  have different : step.1 ≠ i := fun same =>
    unvisited (List.mem_map.mpr ⟨step, member, same⟩)
  exact Vector.getElem_set_ne step.1.isLt i.isLt (fun same => different (Fin.ext same))

/-- The first position gets the value that the walk begins with. -/
theorem carry_first (step : Fin n × (α → α)) (rest : List (Fin n × (α → α)))
    (reached : Vector α n × α) (nodup : ((step :: rest).map Prod.fst).Nodup)
    : ((step :: rest).foldl carry reached).1[step.1] = step.2 reached.2 := by
  have unvisited : step.1 ∉ rest.map Prod.fst := (List.nodup_cons.mp nodup).1
  rw [List.foldl_cons, carry_frame rest _ unvisited, carry_visited]

/-- A walk through different positions moves each value to the next position: what comes
before the two does not write the first of them, and what comes after does not write the second.
-/
theorem carry_next (before after : List (Fin n × (α → α))) (here there : Fin n × (α → α))
    (reached : Vector α n × α)
    (nodup : ((before ++ here :: there :: after).map Prod.fst).Nodup)
    : ((before ++ here :: there :: after).foldl carry reached).1[there.1]
      = there.2 reached.1[here.1] := by
  rw [List.map_append, List.map_cons, List.map_cons] at nodup
  obtain ⟨_, later, apart⟩ := List.nodup_append.mp nodup
  have unvisited : here.1 ∉ before.map Prod.fst := fun visited =>
    apart here.1 visited here.1 List.mem_cons_self rfl
  have found := carry_frame before reached unvisited
  rw [List.foldl_append, List.foldl_cons, carry_first there after _ (List.nodup_cons.mp later).2]
  exact congrArg there.2 found

end IndependentUpdates
