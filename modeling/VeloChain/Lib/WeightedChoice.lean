import Mathlib.Algebra.GroupWithZero.Nat
import Mathlib.Data.Nat.Count
import Mathlib.Algebra.BigOperators.Group.List.Basic

/-! Choices by weight.
A residue picks the entry whose share of the cumulative weights it falls into.
-/

namespace WeightedChoice

variable {α : Type*} {weight : α → Nat}

/-- The first entry whose cumulative weight exceeds the residue. -/
def pick (weight : α → Nat) : List α → Nat → Option α
  | [], _ => none
  | entry :: rest, residue =>
      if residue < weight entry then some entry else pick weight rest (residue - weight entry)

def total (weight : α → Nat) (entries : List α) : Nat := (entries.map weight).sum

@[simp] theorem total_nil : total weight [] = 0 := rfl

@[simp] theorem total_cons {entry : α} {rest : List α}
    : total weight (entry :: rest) = weight entry + total weight rest :=
  List.sum_cons

theorem mem_of_pick {entries : List α} {residue : Nat} {entry : α}
    (picked : pick weight entries residue = some entry)
    : entry ∈ entries := by
  induction entries generalizing residue with
  | nil => simp [pick] at picked
  | cons first rest ih =>
      unfold pick at picked
      split at picked
      next =>
        obtain rfl := Option.some.inj picked
        exact List.mem_cons_self
      next => exact List.mem_cons_of_mem first (ih picked)

/-- Every residue below the total picks an entry. -/
theorem isSome_pick {entries : List α} {residue : Nat} (below : residue < total weight entries)
    : (pick weight entries residue).isSome := by
  induction entries generalizing residue with
  | nil => exact absurd below (Nat.not_lt_zero residue)
  | cons entry rest ih =>
      rw [total_cons] at below
      unfold pick
      split
      next => rfl
      next beyond => exact ih (by omega)

theorem pick_map {β : Type*} (f : β → α) (entries : List β) (residue : Nat)
    : pick weight (entries.map f) residue = (pick (weight ∘ f) entries residue).map f := by
  induction entries generalizing residue with
  | nil => rfl
  | cons entry rest ih =>
      rw [List.map_cons, pick, pick, Function.comp_apply]
      split
      next => rfl
      next => exact ih (residue - weight (f entry))

/-- Past the first share, the others are walked. -/
@[simp] theorem pick_cons_add (entry : α) (rest : List α) (residue : Nat)
    : pick weight (entry :: rest) (weight entry + residue) = pick weight rest residue := by
  have beyond : ¬ weight entry + residue < weight entry := by omega
  rw [pick, if_neg beyond, Nat.add_sub_cancel_left]

variable [DecidableEq α]

/-- How many residues below the total pick an entry. -/
def share (weight : α → Nat) (entries : List α) (chosen : α) : Nat :=
  Nat.count (fun residue => pick weight entries residue = some chosen) (total weight entries)

theorem share_cons (chosen entry : α) (rest : List α)
    : share weight (entry :: rest) chosen
      = (if entry = chosen then weight entry else 0) + share weight rest chosen := by
  have first
      : Nat.count (fun residue => pick weight (entry :: rest) residue = some chosen)
          (weight entry)
        = if entry = chosen then weight entry else 0 := by
    split
    next own =>
      refine Nat.count_of_forall (fun residue below => ?_)
      rw [pick, if_pos below, own]
    next other =>
      refine Nat.count_of_forall_not (fun residue below picked => other ?_)
      rw [pick, if_pos below] at picked
      exact Option.some.inj picked
  simp only [share, total_cons, Nat.count_add, first, pick_cons_add]

theorem share_eq_zero {entries : List α} {chosen : α} (absent : chosen ∉ entries)
    : share weight entries chosen = 0 :=
  Nat.count_of_forall_not (fun _ _ picked => absent (mem_of_pick picked))

/-- Every entry is picked by as many residues as its weight says, by induction on the entries. -/
theorem share_of_mem {entries : List α} (nodup : entries.Nodup) {chosen : α}
    (member : chosen ∈ entries)
    : share weight entries chosen = weight chosen := by
  induction entries with
  | nil => exact absurd member List.not_mem_nil
  | cons entry rest ih =>
      obtain ⟨absent, nodupRest⟩ := List.nodup_cons.mp nodup
      rw [share_cons]
      rcases List.mem_cons.mp member with rfl | inRest
      · rw [if_pos rfl, share_eq_zero absent, Nat.add_zero]
      · have other : entry ≠ chosen := fun same => absent (same ▸ inRest)
        rw [if_neg other, ih nodupRest inRest, Nat.zero_add]

end WeightedChoice
