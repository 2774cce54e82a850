import Mathlib.Data.List.Nodup

/-! Lists put together from parts whose elements carry the name of their part.
Two such lists are equal exactly when they are equal part by part, also where the parts are what
is kept of the elements of a list at their positions.
-/

namespace KeyedParts

variable {α β γ : Type*}

/-- The elements of a part carry the name of its item. -/
def Keyed (key : β → γ) (name : α → γ) (part : α → List β) (items : List α) : Prop :=
  ∀ item ∈ items, ∀ element ∈ part item, key element = name item

variable {key : β → γ} {name : α → γ} {items : List α} {left right : α → List β}

/-- The name of an item selects its part, by induction on the items. -/
theorem filter_flatMap_of_keyed [DecidableEq γ] (keyed : Keyed key name left items)
    (distinct : (items.map name).Nodup) {item : α} (member : item ∈ items)
    : (items.flatMap left).filter (fun element => key element = name item) = left item := by
  induction items with
  | nil => simp at member
  | cons first rest ih =>
      obtain ⟨keyedFirst, keyedRest⟩ := List.forall_mem_cons.mp keyed
      obtain ⟨fresh, distinct⟩ := List.nodup_cons.mp distinct
      have apart {other : α} (listed : other ∈ rest) : name first ≠ name other :=
        fun same => fresh (same ▸ List.mem_map_of_mem listed)
      rw [List.flatMap_cons, List.filter_append]
      rcases List.mem_cons.mp member with rfl | later
      · have kept : (left item).filter (fun element => key element = name item) = left item :=
          List.filter_eq_self.mpr (fun element here => decide_eq_true (keyedFirst element here))
        have none : (rest.flatMap left).filter (fun element => key element = name item) = [] := by
          refine List.filter_eq_nil_iff.mpr (fun element here => ?_)
          obtain ⟨other, listed, here⟩ := List.mem_flatMap.mp here
          rw [keyedRest other listed element here, decide_eq_true_eq]
          exact (apart listed).symm
        rw [kept, none, List.append_nil]
      · have none : (left first).filter (fun element => key element = name item) = [] := by
          refine List.filter_eq_nil_iff.mpr (fun element here => ?_)
          rw [keyedFirst element here, decide_eq_true_eq]
          exact apart later
        rw [none, List.nil_append, ih keyedRest distinct later]

theorem flatMap_eq_iff (keyedLeft : Keyed key name left items)
    (keyedRight : Keyed key name right items) (distinct : (items.map name).Nodup)
    : items.flatMap left = items.flatMap right ↔ ∀ item ∈ items, left item = right item := by
  classical
  refine ⟨fun same item member => ?_, List.flatMap_congr⟩
  rw [← filter_flatMap_of_keyed keyedLeft distinct member, same,
    filter_flatMap_of_keyed keyedRight distinct member]

/-- What is kept of a list is what is kept at each position up to a bound on its length, by
induction on the bound.
-/
theorem filterMap_zipIdx_eq_flatMap {values : List α} {bound : Nat}
    (fits : values.length ≤ bound) (keep : α → Nat → Option β)
    : values.zipIdx.filterMap (fun (value, i) => keep value i)
      = (List.range bound).flatMap (fun i =>
          (values[i]?.bind (fun value => keep value i)).toList) := by
  induction bound generalizing values keep with
  | zero =>
      rw [List.length_eq_zero_iff.mp (Nat.le_zero.mp fits)]
      rfl
  | succ bound ih =>
      cases values with
      | nil => simp
      | cons value rest =>
          have shorter : rest.length ≤ bound := Nat.le_of_succ_le_succ fits
          rw [List.range_succ_eq_map, List.flatMap_cons, List.flatMap_map, List.zipIdx_cons,
            List.zipIdx_succ, List.filterMap_cons, List.filterMap_map]
          have later := ih shorter (fun value i => keep value (i + 1))
          simp only [List.getElem?_cons_succ, List.getElem?_cons_zero, Option.bind_some]
          rw [← later]
          cases keep value 0 <;> rfl

/-- Two kept lists are equal exactly when the same is kept at each position. -/
theorem filterMap_zipIdx_eq_iff {number : Nat → γ} (distinct : Function.Injective number)
    {keepLeft keepRight : α → Nat → Option β}
    (keyedLeft : ∀ value i, ∀ element ∈ keepLeft value i, key element = number i)
    (keyedRight : ∀ value i, ∀ element ∈ keepRight value i, key element = number i)
    (left right : List α)
    : left.zipIdx.filterMap (fun (value, i) => keepLeft value i)
        = right.zipIdx.filterMap (fun (value, i) => keepRight value i)
      ↔ ∀ i,
          left[i]?.bind (fun value => keepLeft value i)
          = right[i]?.bind (fun value => keepRight value i) := by
  have keyed {keep : α → Nat → Option β} {values : List α} {bound : Nat}
      (carried : ∀ value i, ∀ element ∈ keep value i, key element = number i)
      : Keyed key number
          (fun i => (values[i]?.bind (fun value => keep value i)).toList) (List.range bound) := by
    intro i _ element member
    obtain ⟨value, _, kept⟩ := Option.bind_eq_some_iff.mp (Option.mem_toList.mp member)
    exact carried value i element kept
  rw [filterMap_zipIdx_eq_flatMap (Nat.le_max_left left.length right.length),
    filterMap_zipIdx_eq_flatMap (Nat.le_max_right left.length right.length),
    flatMap_eq_iff (keyed keyedLeft) (keyed keyedRight)
      (List.nodup_range.map distinct)]
  refine ⟨fun same i => ?_, fun same i _ => by rw [same i]⟩
  rcases Nat.lt_or_ge i (max left.length right.length) with below | beyond
  · have kept := congrArg List.head? (same i (List.mem_range.mpr below))
    simpa only [Option.head?_toList] using kept
  · obtain ⟨leftEnds, rightEnds⟩ := Nat.max_le.mp beyond
    rw [List.getElem?_eq_none leftEnds, List.getElem?_eq_none rightEnds]
    rfl

end KeyedParts
