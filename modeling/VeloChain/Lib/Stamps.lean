import Mathlib.Data.List.Nodup
import VeloChain.Lib.Loop

/-! Numbers taken from counters that never go back.
Each key has a counter. A list of stamps is drawn between two states of the counters when the
stamps of a key lie between its two readings and no stamp occurs twice. Draws compose, so a
loop whose every turn draws never repeats a stamp.
-/

namespace Stamps

variable {κ : Type*}

/-- The stamps are taken, each once, while the counters go from `before` to `after`. -/
structure Drawn (before after : κ → Nat) (stamps : List (κ × Nat)) : Prop where
  monotone : ∀ key, before key ≤ after key
  nodup : stamps.Nodup
  within : ∀ stamp ∈ stamps, before stamp.1 ≤ stamp.2 ∧ stamp.2 < after stamp.1

/-- Counters go on without a stamp. -/
theorem Drawn.idle {before after : κ → Nat} (monotone : ∀ key, before key ≤ after key)
    : Drawn before after [] :=
  ⟨monotone, List.nodup_nil, by simp⟩

/-- One stamp is the reading of a counter that then goes up. -/
theorem Drawn.single {before after : κ → Nat} {key : κ}
    (monotone : ∀ key, before key ≤ after key) (up : before key < after key)
    : Drawn before after [(key, before key)] := by
  refine ⟨monotone, List.nodup_singleton _, ?_⟩
  intro stamp member
  obtain rfl := List.mem_singleton.mp member
  exact ⟨Nat.le_refl _, up⟩

/-- Leaving out stamps keeps a draw. -/
theorem Drawn.sublist {before after : κ → Nat} {stamps fewer : List (κ × Nat)}
    (drawn : Drawn before after stamps) (sublist : fewer.Sublist stamps)
    : Drawn before after fewer :=
  ⟨drawn.monotone, sublist.nodup drawn.nodup,
    fun stamp member => drawn.within stamp (sublist.subset member)⟩

/-- Stamps drawn one after another: a stamp of the first draw is below the reading at which
the second begins.
-/
theorem Drawn.append {before middle after : κ → Nat} {first second : List (κ × Nat)}
    (left : Drawn before middle first) (right : Drawn middle after second)
    : Drawn before after (first ++ second) := by
  refine ⟨fun key => Nat.le_trans (left.monotone key) (right.monotone key), ?_, ?_⟩
  · refine List.nodup_append.mpr ⟨left.nodup, right.nodup, ?_⟩
    intro stamp inFirst other inSecond same
    subst same
    exact absurd (left.within stamp inFirst).2 (Nat.not_lt.mpr (right.within stamp inSecond).1)
  · intro stamp member
    cases List.mem_append.mp member with
    | inl inFirst =>
        obtain ⟨lower, upper⟩ := left.within stamp inFirst
        exact ⟨lower, Nat.lt_of_lt_of_le upper (right.monotone stamp.1)⟩
    | inr inSecond =>
        obtain ⟨lower, upper⟩ := right.within stamp inSecond
        exact ⟨Nat.le_trans (left.monotone stamp.1) lower, upper⟩

section Loops

variable {α ε σ : Type*} {body : α → σ → Except ε Unit × σ}

/-- A successful loop draws what its turns draw. -/
theorem drawn_turns {items : List α} {state final : σ} (counters : σ → κ → Nat)
    (stamps : Loop.Turn α σ → List (κ × Nat))
    (succeeds : Loop.run body items state = (.ok (), final))
    (draws
      : ∀ turn ∈ Loop.turns body items state,
          Drawn (counters turn.before) (counters turn.after) (stamps turn))
    : Drawn (counters state) (counters final)
        ((Loop.turns body items state).flatMap stamps) := by
  induction items generalizing state with
  | nil =>
      obtain rfl := (Prod.mk.inj succeeds).2
      exact .idle (fun _ => Nat.le_refl _)
  | cons item rest ih =>
      obtain ⟨next, turn, succeeds⟩ := Loop.run_cons_ok_iff.mp succeeds
      rw [Loop.turns_cons_ok turn] at draws ⊢
      obtain ⟨here, later⟩ := List.forall_mem_cons.mp draws
      rw [List.flatMap_cons]
      exact here.append (ih succeeds later)

end Loops

/-- Stamps of pairs, each among those of its left component, are fewer than all of these. -/
theorem flatMap_zip_sublist {α β : Type*} {ofPair : α × β → List (κ × Nat)}
    {ofLeft : α → List (κ × Nat)} {left : List α} {right : List β}
    (fewer : ∀ pair ∈ left.zip right, (ofPair pair).Sublist (ofLeft pair.1))
    : ((left.zip right).flatMap ofPair).Sublist (left.flatMap ofLeft) := by
  induction left generalizing right with
  | nil => simp
  | cons item rest ih =>
      cases right with
      | nil => simp
      | cons other later =>
          simp only [List.zip_cons_cons, List.forall_mem_cons] at fewer
          simp only [List.zip_cons_cons, List.flatMap_cons]
          exact fewer.1.append (ih fewer.2)

end Stamps
