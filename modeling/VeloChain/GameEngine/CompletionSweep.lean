import VeloChain.GameEngine.QuestLaws

/-! The sweep of completed quests: positions are collected first and removed from the back. -/

namespace VeloChain

namespace QuestRegistry

variable {registry : QuestRegistry}

-----------------------------------------------------------------------------------------
-- Finished quests
-----------------------------------------------------------------------------------------

/-- The registry knows the quest, and all of its objectives are complete. -/
def Finished (registry : QuestRegistry) (active : ActiveQuest) : Prop :=
  (registry.get active.questId).isSome = true
  ∧ ∀ objective ∈ active.objectives, objective.complete = true

instance (registry : QuestRegistry) (active : ActiveQuest)
    : Decidable (registry.Finished active) :=
  inferInstanceAs (Decidable (_ ∧ _))

/-- The sweep tests for finished quests. -/
theorem done_eq_decide (registry : QuestRegistry) (active : ActiveQuest)
    : registry.done active = decide (registry.Finished active) := by
  rw [Bool.eq_iff_iff, decide_eq_true_iff]
  simp only [done, Finished, ActiveQuest.isComplete, Bool.and_eq_true, List.all_eq_true]
  exact and_comm

/-- The result for one quest holds the reward of the registry. -/
def Rewards (registry : QuestRegistry) (active : ActiveQuest) (result : QuestResult) : Prop :=
  ∃ quest,
    registry.get active.questId = some quest
    ∧ result = .completed active.questId quest.reward

/-- The results are those of the finished quests, one for each and in their order, by induction
on the active quests.
-/
theorem completions_rewards (index : Nat) (active : List ActiveQuest)
    : List.Forall₂ registry.Rewards (active.filter registry.done)
        ((registry.completions index active).map Prod.snd) := by
  induction active generalizing index with
  | nil => exact .nil
  | cons first rest ih =>
      have later := ih (index + 1)
      rw [completions]
      cases complete : first.isComplete with
      | false =>
          have isOpen : ¬ registry.done first = true := by simp [done, complete]
          rw [List.filter_cons_of_neg isOpen]
          simpa using later
      | true =>
          cases found : registry.get first.questId with
          | none =>
              have unknown : ¬ registry.done first = true := by simp [done, found]
              rw [List.filter_cons_of_neg unknown]
              simpa using later
          | some quest =>
              have isDone : registry.done first = true := by simp [done, complete, found]
              rw [List.filter_cons_of_pos isDone]
              exact .cons ⟨quest, found, rfl⟩ (by simpa using later)

/-- Among quests that are not done nothing is collected. -/
theorem completions_open (index : Nat) {active : List ActiveQuest}
    (isOpen : active.filter registry.done = [])
    : (registry.completions index active).map Prod.snd = [] := by
  have rewards := @completions_rewards registry index active
  rw [isOpen] at rewards
  exact List.forall₂_nil_left_iff.mp rewards

-----------------------------------------------------------------------------------------
-- The sweep
-----------------------------------------------------------------------------------------

/-- What a sweep does: the finished quests move to the completed ones, each occurrence once,
and each is rewarded once.
-/
structure Sweep (registry : QuestRegistry) (before : PlayerQuestState)
    (results : List QuestResult) (after : PlayerQuestState) : Prop where
  kept : after.active = before.active.filter (fun quest => ¬ registry.Finished quest)
  moved
    : ∃ ids,
        ids.Perm ((before.active.filter (fun quest => registry.Finished quest)).map
          ActiveQuest.questId)
        ∧ after.completed = before.completed ++ ids
  rewarded
    : List.Forall₂ registry.Rewards
        (before.active.filter (fun quest => registry.Finished quest)) results
  limit : after.maxActive = before.maxActive

/-- Nothing is left to do after a sweep. -/
theorem checkCompletions_open {state : PlayerQuestState}
    (isOpen : state.active.filter registry.done = [])
    : registry.checkCompletions state = some ([], state) := by
  have stays : state.active.filter (fun quest => !registry.done quest) = state.active := by
    rw [List.filter_eq_self]
    intro quest member
    have unfinished := List.filter_eq_nil_iff.mp isOpen quest member
    simpa using unfinished
  rw [checkCompletions_eq, completions_open 0 isOpen, isOpen, stays]
  simp

/-- Every sweep returns, moves and rewards exactly the finished quests, and a second sweep
directly afterwards finds nothing.
-/
theorem checkCompletions_sweeps (registry : QuestRegistry) (state : PlayerQuestState)
    : ∃ results after,
        registry.checkCompletions state = some (results, after)
        ∧ registry.Sweep state results after
        ∧ registry.checkCompletions after = some ([], after) := by
  have tested
      : registry.done = fun quest => decide (registry.Finished quest) :=
    funext (done_eq_decide registry)
  refine ⟨_, _, checkCompletions_eq registry state, ⟨?_, ?_, ?_, rfl⟩, ?_⟩
  · rw [tested]
    exact List.filter_congr (fun quest _ => by simp)
  · refine ⟨_, List.reverse_perm _, ?_⟩
    rw [tested]
  · rw [← tested]
    exact completions_rewards 0 state.active
  · apply checkCompletions_open
    rw [List.filter_filter]
    simp

end QuestRegistry

end VeloChain
