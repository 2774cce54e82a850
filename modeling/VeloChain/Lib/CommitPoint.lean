import Mathlib.Data.List.Basic

/-! Logs of writes that are cut off at any point.
An observer sees a state after a prefix of the log. The log is all or nothing when every prefix
shows what was there before or what the whole log leaves. One write that flips a part of the
view is the commit point: nothing shows before it, and everything shows after it.
-/

namespace CommitPoint

variable {W S V : Type} (write : W → S → S) (see : S → V)

/-- The state after all writes of a log. -/
def replay (log : List W) (s : S) : S := log.foldl (fun s w => write w s) s

/-- Every prefix of the log shows the view before it or the view after it. -/
def AllOrNothing (log : List W) (s : S) : Prop :=
  ∀ n,
    see (replay write (log.take n) s) = see s
    ∨ see (replay write (log.take n) s) = see (replay write log s)

/-- No prefix of the log shows. -/
def Hidden (log : List W) (s : S) : Prop := ∀ n, see (replay write (log.take n) s) = see s

variable {write see}

theorem replay_append (left right : List W) (s : S)
    : replay write (left ++ right) s = replay write right (replay write left s) := by
  simp only [replay, List.foldl_append]

theorem replay_cons (w : W) (rest : List W) (s : S)
    : replay write (w :: rest) s = replay write rest (write w s) := rfl

/-- What every write of a log keeps holds after the log. -/
theorem replay_invariant {inv : S → Prop} {log : List W} {s : S}
    (keeps : ∀ w ∈ log, ∀ s, inv s → inv (write w s)) (start : inv s)
    : inv (replay write log s) := by
  induction log generalizing s with
  | nil => exact start
  | cons w rest ih =>
      exact ih (fun later member => keeps later (List.mem_cons_of_mem _ member))
        (keeps w List.mem_cons_self s start)

/-- A log does not show if its writes keep an invariant that fixes the view. -/
theorem Hidden.of_invariant {inv : S → Prop} {log : List W} {s : S}
    (keeps : ∀ w ∈ log, ∀ s, inv s → inv (write w s)) (start : inv s)
    (fixes : ∀ s', inv s' → see s' = see s)
    : Hidden write see log s := by
  intro n
  apply fixes
  exact replay_invariant (fun w member => keeps w (List.mem_of_mem_take member)) start

theorem Hidden.replay {log : List W} {s : S} (hidden : Hidden write see log s)
    : see (replay write log s) = see s := by
  have whole := hidden log.length
  rwa [List.take_length] at whole

/-- A log is cut off before its commit point or after it. -/
theorem take_cases (before after : List W) (w : W) (n : Nat)
    : (before ++ w :: after).take n = before.take n
      ∨ ∃ k, (before ++ w :: after).take n = before ++ w :: after.take k := by
  by_cases early : n ≤ before.length
  · exact Or.inl (List.take_append_of_le_length early)
  · obtain ⟨k, rfl⟩ := Nat.exists_eq_add_of_lt (Nat.lt_of_not_le early)
    refine Or.inr ⟨k, ?_⟩
    rw [Nat.add_assoc, List.take_length_add_append, List.take_succ_cons]

/-- A log with a commit point is all or nothing. -/
theorem AllOrNothing.of_commitPoint {before after : List W} {w : W} {s : S}
    (first : Hidden write see before s)
    (second : Hidden write see after (write w (replay write before s)))
    : AllOrNothing write see (before ++ w :: after) s := by
  intro n
  rcases take_cases before after w n with early | ⟨k, late⟩
  · rw [early]
    exact Or.inl (first n)
  · apply Or.inr
    rw [late, replay_append, replay_append, replay_cons, replay_cons, second, second.replay]

variable {P : Type} (part : V → P)

/-- In a log that is all or nothing, nothing shows before a part of the view has its last
value.
-/
theorem AllOrNothing.before {before after : List W} {s : S}
    (atomic : AllOrNothing write see (before ++ after) s)
    (pending
      : part (see (replay write before s)) ≠ part (see (replay write (before ++ after) s)))
    : see (replay write before s) = see s := by
  have cut := atomic before.length
  rw [List.take_left] at cut
  exact cut.resolve_right (fun same => pending (congrArg part same))

/-- In a log that is all or nothing, everything shows once a part of the view has changed. -/
theorem AllOrNothing.after {before after : List W} {s : S}
    (atomic : AllOrNothing write see (before ++ after) s)
    (changed : part (see (replay write before s)) ≠ part (see s))
    : see (replay write before s) = see (replay write (before ++ after) s) := by
  have cut := atomic before.length
  rw [List.take_left] at cut
  exact cut.resolve_left (fun same => changed (congrArg part same))

end CommitPoint
