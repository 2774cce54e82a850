import VeloChain.GameEngine.Quests

/-! Laws of the quest engine over all runs of a player.
Events only move objectives forward, completions move quests from the active to the completed
list with their rewards, and acceptance guards both lists.
-/

namespace VeloChain

/-- The quests that results reward. -/
def rewarded (results : List QuestResult) : List UInt32 :=
  results.filterMap fun
    | .completed questId _ => some questId
    | _ => none

/-- An active quest has kept its objectives, and the complete ones among them complete. -/
structure ActiveQuest.Advances (before after : ActiveQuest) : Prop where
  questId : after.questId = before.questId
  length : after.objectives.length = before.objectives.length
  kept
    : ∀ (index : Nat) progress, before.objectives[index]? = some progress →
        progress.complete = true →
        ∃ later, after.objectives[index]? = some later ∧ later.complete = true

namespace ActiveQuest

theorem Advances.refl (active : ActiveQuest) : active.Advances active :=
  ⟨rfl, rfl, fun _ progress found complete => ⟨progress, found, complete⟩⟩

theorem Advances.trans {first second third : ActiveQuest} (left : first.Advances second)
    (right : second.Advances third) : first.Advances third := by
  refine ⟨right.questId.trans left.questId, right.length.trans left.length, ?_⟩
  intro index progress found complete
  obtain ⟨middle, stored, isComplete⟩ := left.kept index progress found complete
  exact right.kept index middle stored isComplete

/-- Progress on an incomplete objective reverts no flag. -/
theorem advances_set {active : ActiveQuest} {index : Nat} {progress : ObjectiveProgress}
    (found : active.objectives[index]? = some progress) (incomplete : progress.complete = false)
    (next : ObjectiveProgress)
    : active.Advances { active with objectives := active.objectives.set index next } := by
  refine ⟨rfl, List.length_set, ?_⟩
  intro other before stored complete
  have different : index ≠ other := by
    rintro rfl
    obtain rfl := Option.some.inj (found.symm.trans stored)
    simp [incomplete] at complete
  refine ⟨before, ?_, complete⟩
  rw [List.getElem?_set_ne different, stored]

variable {concerns : QuestObjective → Bool} {record : ObjectiveProgress → ObjectiveProgress}

/-- An event moves the objectives of a quest forward and rewards nothing, by induction on the
objectives.
-/
theorem advanceFrom_advances {objectives : List QuestObjective} {index : Nat}
    {active after : ActiveQuest} {results : List QuestResult}
    (returns : active.advanceFrom concerns record index objectives = some (results, after))
    : active.Advances after ∧ rewarded results = [] := by
  induction objectives generalizing index active results with
  | nil =>
      obtain ⟨rfl, rfl⟩ := Prod.mk.inj (Option.some.inj returns)
      exact ⟨.refl active, rfl⟩
  | cons objective rest ih =>
      unfold advanceFrom at returns
      split at returns
      next =>
        cases found : active.objectives[index]? with
        | none => simp [found] at returns
        | some progress =>
            simp only [found] at returns
            split at returns
            next => exact ih returns
            next incomplete =>
              obtain ⟨⟨later, last⟩, advanced, same⟩ := Option.bind_eq_some_iff.mp returns
              obtain ⟨rfl, rfl⟩ := Prod.mk.inj (Option.some.inj same)
              obtain ⟨moved, silent⟩ := ih advanced
              exact ⟨(advances_set found (by simpa using incomplete) (record progress)).trans
                moved, silent⟩
      next => exact ih returns

/-- An event is recorded when there is progress for every objective. -/
theorem advanceFrom_returns {objectives : List QuestObjective} {index : Nat}
    {active : ActiveQuest} (within : index + objectives.length ≤ active.objectives.length)
    : (active.advanceFrom concerns record index objectives).isSome := by
  induction objectives generalizing index active with
  | nil => rfl
  | cons objective rest ih =>
      rw [List.length_cons] at within
      unfold advanceFrom
      split
      next =>
        have inRange : index < active.objectives.length := by omega
        rw [List.getElem?_eq_getElem inRange]
        simp only
        split
        next => exact ih (by omega)
        next =>
          have later := @ih (index + 1)
            { active with
              objectives := active.objectives.set index (record active.objectives[index]) }
            (by rw [List.length_set]; omega)
          obtain ⟨out, advanced⟩ := Option.isSome_iff_exists.mp later
          simp [advanced]
      next => exact ih (by omega)

end ActiveQuest

namespace QuestRegistry

variable {registry : QuestRegistry} {concerns : QuestObjective → Bool}
  {record : ObjectiveProgress → ObjectiveProgress} {state after : PlayerQuestState}
  {results : List QuestResult} {op : QuestCall}

-----------------------------------------------------------------------------------------
-- Events
-----------------------------------------------------------------------------------------

/-- An event moves every active quest forward and rewards nothing. -/
theorem advance_advances {active later : List ActiveQuest}
    (returns : registry.advance concerns record active = some (results, later))
    : List.Forall₂ ActiveQuest.Advances active later ∧ rewarded results = [] := by
  induction active generalizing later results with
  | nil =>
      obtain ⟨rfl, rfl⟩ := Prod.mk.inj (Option.some.inj returns)
      exact ⟨.nil, rfl⟩
  | cons first rest ih =>
      unfold advance at returns
      split at returns
      next =>
        obtain ⟨⟨others, moved⟩, advanced, same⟩ := Option.bind_eq_some_iff.mp returns
        obtain ⟨rfl, rfl⟩ := Prod.mk.inj (Option.some.inj same)
        obtain ⟨all, silent⟩ := ih advanced
        exact ⟨.cons (.refl first) all, silent⟩
      next quest _ =>
        obtain ⟨⟨own, next⟩, here, there⟩ := Option.bind_eq_some_iff.mp returns
        obtain ⟨⟨others, moved⟩, advanced, same⟩ := Option.bind_eq_some_iff.mp there
        obtain ⟨rfl, rfl⟩ := Prod.mk.inj (Option.some.inj same)
        obtain ⟨all, silent⟩ := ih advanced
        obtain ⟨one, quiet⟩ := ActiveQuest.advanceFrom_advances here
        refine ⟨.cons one all, ?_⟩
        rw [rewarded, List.filterMap_append]
        exact List.append_eq_nil_iff.mpr ⟨quiet, silent⟩

theorem onEvent_advances (returns : registry.onEvent concerns record state = some (results, after))
    : List.Forall₂ ActiveQuest.Advances state.active after.active
      ∧ after.completed = state.completed
      ∧ after.maxActive = state.maxActive
      ∧ rewarded results = [] := by
  obtain ⟨⟨own, active⟩, advanced, same⟩ := Option.map_eq_some_iff.mp returns
  obtain ⟨rfl, rfl⟩ := Prod.mk.inj same
  obtain ⟨all, silent⟩ := advance_advances advanced
  exact ⟨all, rfl, rfl, silent⟩

-----------------------------------------------------------------------------------------
-- Completions
-----------------------------------------------------------------------------------------

/-- The quest is complete, and its reward is known. -/
def done (registry : QuestRegistry) (active : ActiveQuest) : Bool :=
  active.isComplete && (registry.get active.questId).isSome

theorem completions_cons (index : Nat) (active : ActiveQuest) (rest : List ActiveQuest)
    : (registry.done active = true
        ∧ ∃ reward,
            registry.completions index (active :: rest)
            = (index, .completed active.questId reward) :: registry.completions (index + 1) rest)
      ∨ (registry.done active = false
        ∧ registry.completions index (active :: rest)
          = registry.completions (index + 1) rest) := by
  unfold done
  rw [completions]
  cases complete : active.isComplete with
  | false => exact Or.inr ⟨rfl, by simp⟩
  | true =>
      cases found : registry.get active.questId with
      | none => exact Or.inr ⟨rfl, by simp⟩
      | some quest => exact Or.inl ⟨rfl, quest.reward, by simp⟩

/-- The rewards are those of the quests that are done. -/
theorem rewarded_completions (index : Nat) (active : List ActiveQuest)
    : rewarded ((registry.completions index active).map Prod.snd)
      = (active.filter registry.done).map ActiveQuest.questId := by
  induction active generalizing index with
  | nil => rfl
  | cons first rest ih =>
      rcases @completions_cons registry index first rest
        with ⟨isDone, reward, split⟩ | ⟨isOpen, split⟩
      · rw [split, List.filter_cons_of_pos isDone, List.map_cons, List.map_cons, ← ih (index + 1)]
        rfl
      · rw [split, List.filter_cons_of_neg (by simp [isOpen]), ih (index + 1)]

/-- Removing the listed quests from the last to the first removes exactly those that are done,
by induction on the quests behind those already looked at.
-/
theorem foldlM_complete (looked rest : List ActiveQuest) (state : PlayerQuestState)
    (split : state.active = looked ++ rest)
    : ((registry.completions looked.length rest).map Prod.fst).reverse.foldlM
        PlayerQuestState.complete state
      = some
          { state with
            active := looked ++ rest.filter (fun quest => !registry.done quest)
            completed :=
              state.completed
                ++ ((rest.filter registry.done).map ActiveQuest.questId).reverse } := by
  induction rest generalizing looked with
  | nil => simp [completions, ← split]
  | cons first rest ih =>
      have later := ih (looked ++ [first]) (by rw [split, List.append_assoc]; rfl)
      rw [List.length_append, List.length_singleton, List.append_assoc] at later
      rcases @completions_cons registry looked.length first rest
        with ⟨isDone, reward, listed⟩ | ⟨isOpen, listed⟩
      · rw [listed, List.map_cons, List.reverse_cons, List.foldlM_append, later]
        simp [PlayerQuestState.complete, isDone, List.eraseIdx_append_of_length_le]
      · rw [listed, later]
        simp [isOpen]

/-- Completion moves the quests that are done to the completed list and rewards them. -/
theorem checkCompletions_eq (registry : QuestRegistry) (state : PlayerQuestState)
    : registry.checkCompletions state
      = some ((registry.completions 0 state.active).map Prod.snd,
          { state with
            active := state.active.filter (fun quest => !registry.done quest)
            completed :=
              state.completed
                ++ ((state.active.filter registry.done).map ActiveQuest.questId).reverse }) := by
  unfold checkCompletions
  have removed := @foldlM_complete registry [] state.active state rfl
  rw [List.length_nil, List.nil_append] at removed
  simp only [removed, Option.bind_eq_bind, Option.bind_some]

-----------------------------------------------------------------------------------------
-- Acceptance
-----------------------------------------------------------------------------------------

/-- What an acceptance has checked. -/
structure Acceptable (registry : QuestRegistry) (questId : UInt32) (quest : QuestDef)
    (state : PlayerQuestState) : Prop where
  found : registry.get questId = some quest
  prerequisites : ∀ p ∈ quest.prerequisites, p ∈ state.completed
  inactive : ∀ active ∈ state.active, active.questId ≠ questId
  first : quest.repeatable = false → questId ∉ state.completed
  room : state.active.length < state.maxActive

/-- A quest is refused, or becomes active with nothing done of it yet. -/
theorem acceptQuest_cases (registry : QuestRegistry) (questId playerLevel : UInt32)
    (currentTick : UInt64) (state : PlayerQuestState)
    : (∃ e, registry.acceptQuest questId playerLevel currentTick state = (.error e, state))
      ∨ ∃ quest,
          registry.Acceptable questId quest state
          ∧ quest.requiredLevel ≤ playerLevel
          ∧ registry.acceptQuest questId playerLevel currentTick state
            = (.accepted questId,
                { state with
                  active :=
                    state.active
                      ++ [{ questId
                            objectives :=
                              quest.objectives.map
                                (fun objective =>
                                  { current := 0
                                    required := objective.required
                                    complete := false })
                            acceptedTick := currentTick }] }) := by
  unfold acceptQuest
  cases found : registry.get questId with
  | none => exact Or.inl ⟨_, rfl⟩
  | some quest =>
      simp only
      split
      next => exact Or.inl ⟨_, rfl⟩
      next reached =>
        split
        next => exact Or.inl ⟨_, rfl⟩
        next nothingMissing =>
          split
          next => exact Or.inl ⟨_, rfl⟩
          next inactive =>
            split
            next => exact Or.inl ⟨_, rfl⟩
            next first =>
              split
              next => exact Or.inl ⟨_, rfl⟩
              next room =>
                refine Or.inr ⟨quest, ⟨found, ?_, ?_, ?_, Nat.lt_of_not_le room⟩,
                  UInt32.not_lt.mp reached, rfl⟩
                · simpa [PlayerQuestState.isCompleted] using nothingMissing
                · simpa [PlayerQuestState.isActive] using inactive
                · intro once
                  simpa [once, PlayerQuestState.isCompleted] using first

-----------------------------------------------------------------------------------------
-- What every call keeps
-----------------------------------------------------------------------------------------

/-- Active quests are distinct, registered and within the limit, and a quest that cannot be
repeated is active or completed at most once.
-/
structure Sound (registry : QuestRegistry) (state : PlayerQuestState) : Prop where
  nodup : (state.active.map ActiveQuest.questId).Nodup
  limit : state.active.length ≤ state.maxActive
  once
    : ∀ id quest, registry.get id = some quest → quest.repeatable = false →
        state.completed.count id + (state.active.map ActiveQuest.questId).count id ≤ 1
  registered
    : ∀ active ∈ state.active, ∃ quest,
        registry.get active.questId = some quest
        ∧ active.objectives.length = quest.objectives.length

/-- A quest becomes active only with its prerequisites completed, ceases to be active only
with its objectives complete, and reverts no flag while it is active.
-/
structure Orderly (registry : QuestRegistry) (before after : PlayerQuestState) : Prop where
  admitted
    : ∀ quest ∈ after.active, (∀ old ∈ before.active, old.questId ≠ quest.questId) →
        ∃ definition,
          registry.get quest.questId = some definition
          ∧ ∀ p ∈ definition.prerequisites, p ∈ before.completed
  finished
    : ∀ quest ∈ before.active, (∀ new ∈ after.active, new.questId ≠ quest.questId) →
        ∀ objective ∈ quest.objectives, objective.complete = true
  kept
    : ∀ old ∈ before.active, ∀ new ∈ after.active, new.questId = old.questId →
        old.Advances new

theorem sound_new (registry : QuestRegistry) : registry.Sound .new :=
  ⟨List.nodup_nil, Nat.zero_le 5, fun _ _ _ _ => Nat.zero_le 1, by simp [PlayerQuestState.new]⟩

/-- Distinct active quests are told apart by their ids. -/
theorem Sound.eq_of_questId (sound : registry.Sound state) {first second : ActiveQuest}
    (left : first ∈ state.active) (right : second ∈ state.active)
    (same : first.questId = second.questId) : first = second :=
  List.inj_on_of_nodup_map sound.nodup left right same

/-- Nothing changes. -/
theorem Sound.orderly_refl (sound : registry.Sound state) : registry.Orderly state state := by
  refine ⟨?_, ?_, ?_⟩
  · exact fun quest member new => absurd rfl (new quest member)
  · exact fun quest member gone => absurd rfl (gone quest member)
  · intro old left new right same
    rw [sound.eq_of_questId right left same]
    exact .refl old

theorem map_questId_of_advances {active later : List ActiveQuest}
    (all : List.Forall₂ ActiveQuest.Advances active later)
    : later.map ActiveQuest.questId = active.map ActiveQuest.questId := by
  induction all with
  | nil => rfl
  | cons one _ ih => rw [List.map_cons, List.map_cons, one.questId, ih]

/-- Each quest after an event comes from one before it, and each before it becomes one. -/
theorem exists_of_forall₂ {relates : ActiveQuest → ActiveQuest → Prop}
    {active later : List ActiveQuest} (all : List.Forall₂ relates active later)
    : (∀ new ∈ later, ∃ old ∈ active, relates old new)
      ∧ ∀ old ∈ active, ∃ new ∈ later, relates old new := by
  induction all with
  | nil => simp
  | @cons first second rest others one _ ih =>
      obtain ⟨backward, forward⟩ := ih
      constructor
      · rintro new (_ | ⟨_, member⟩)
        · exact ⟨first, List.mem_cons_self, one⟩
        · obtain ⟨old, inRest, moved⟩ := backward new member
          exact ⟨old, List.mem_cons_of_mem _ inRest, moved⟩
      · rintro old (_ | ⟨_, member⟩)
        · exact ⟨second, List.mem_cons_self, one⟩
        · obtain ⟨new, inOthers, moved⟩ := forward old member
          exact ⟨new, List.mem_cons_of_mem _ inOthers, moved⟩

/-- An event keeps the lists and reverts nothing. -/
theorem Sound.onEvent (sound : registry.Sound state)
    (returns : registry.onEvent concerns record state = some (results, after))
    : registry.Sound after ∧ registry.Orderly state after := by
  obtain ⟨all, completed, maxActive, _⟩ := onEvent_advances returns
  have ids := map_questId_of_advances all
  obtain ⟨backward, forward⟩ := exists_of_forall₂ all
  have soundAfter : registry.Sound after := by
    refine ⟨ids ▸ sound.nodup, ?_, ?_, ?_⟩
    · rw [← all.length_eq, maxActive]
      exact sound.limit
    · rw [ids, completed]
      exact sound.once
    · intro new member
      obtain ⟨old, inActive, moved⟩ := backward new member
      obtain ⟨quest, found, length⟩ := sound.registered old inActive
      exact ⟨quest, moved.questId ▸ found, moved.length.trans length⟩
  refine ⟨soundAfter, ?_, ?_, ?_⟩
  · intro new member fresh
    obtain ⟨old, inActive, moved⟩ := backward new member
    exact absurd moved.questId.symm (fresh old inActive)
  · intro old member gone
    obtain ⟨new, inAfter, moved⟩ := forward old member
    exact absurd moved.questId (gone new inAfter)
  · intro old left new right same
    obtain ⟨next, inAfter, moved⟩ := forward old left
    rwa [soundAfter.eq_of_questId right inAfter (same.trans moved.questId.symm)]

/-- An acceptance adds one quest, which has its prerequisites completed. -/
theorem Sound.acceptQuest (sound : registry.Sound state) (questId playerLevel : UInt32)
    (currentTick : UInt64)
    : registry.Sound (registry.acceptQuest questId playerLevel currentTick state).2
      ∧ registry.Orderly state
          (registry.acceptQuest questId playerLevel currentTick state).2
      ∧ (registry.acceptQuest questId playerLevel currentTick state).2.completed
        = state.completed
          ++ (rewarded
              [(registry.acceptQuest questId playerLevel currentTick state).1]).reverse := by
  rcases registry.acceptQuest_cases questId playerLevel currentTick state
    with ⟨e, refused⟩ | ⟨quest, acceptable, -, accepted⟩
  · rw [refused]
    exact ⟨sound, sound.orderly_refl, (List.append_nil _).symm⟩
  · have new : questId ∉ state.active.map ActiveQuest.questId := by
      intro member
      obtain ⟨active, inActive, same⟩ := List.mem_map.mp member
      exact acceptable.inactive active inActive same
    rw [accepted]
    refine ⟨⟨?_, ?_, ?_, ?_⟩, ⟨?_, ?_, ?_⟩, (List.append_nil _).symm⟩
    · rw [List.map_append, List.nodup_append_comm]
      exact List.nodup_cons.mpr ⟨new, sound.nodup⟩
    · rw [List.length_append, List.length_singleton]
      exact acceptable.room
    · intro id definition found once
      rw [List.map_append, List.count_append]
      by_cases same : id = questId
      · subst same
        obtain rfl := Option.some.inj (acceptable.found.symm.trans found)
        rw [List.count_eq_zero.mpr (acceptable.first once), List.count_eq_zero.mpr new]
        simp
      · have others := sound.once id definition found once
        simpa [List.count_singleton, Ne.symm same] using others
    · intro active member
      rcases List.mem_append.mp member with old | new
      · exact sound.registered active old
      · rw [List.mem_singleton.mp new]
        exact ⟨quest, acceptable.found, List.length_map _⟩
    · intro new member fresh
      rcases List.mem_append.mp member with old | isNew
      · exact absurd rfl (fresh new old)
      · rw [List.mem_singleton.mp isNew]
        exact ⟨quest, acceptable.found, acceptable.prerequisites⟩
    · exact fun old member gone => absurd rfl (gone old (List.mem_append_left _ member))
    · intro old left new right same
      rcases List.mem_append.mp right with isOld | isNew
      · rw [sound.eq_of_questId isOld left same]
        exact .refl old
      · rw [List.mem_singleton.mp isNew] at same
        exact absurd same.symm (acceptable.inactive old left)

/-- Completion removes quests whose objectives are complete. -/
theorem Sound.checkCompletions (sound : registry.Sound state)
    (returns : registry.checkCompletions state = some (results, after))
    : registry.Sound after
      ∧ registry.Orderly state after
      ∧ after.completed = state.completed ++ (rewarded results).reverse := by
  rw [checkCompletions_eq] at returns
  obtain ⟨rfl, rfl⟩ := Prod.mk.inj (Option.some.inj returns)
  have remaining : ∀ quest ∈ state.active.filter (fun quest => !registry.done quest),
      quest ∈ state.active := fun quest member => (List.mem_filter.mp member).1
  refine ⟨⟨?_, ?_, ?_, ?_⟩, ⟨?_, ?_, ?_⟩, ?_⟩
  · exact sound.nodup.sublist (List.filter_sublist.map _)
  · exact Nat.le_trans (List.length_filter_le _ _) sound.limit
  · intro id quest found once
    have parts := ((List.filter_append_perm registry.done state.active).map
      ActiveQuest.questId).count_eq id
    rw [List.map_append, List.count_append] at parts
    have total := sound.once id quest found once
    rw [List.count_append, List.count_reverse]
    simp only at parts total ⊢
    omega
  · exact fun quest member => sound.registered quest (remaining quest member)
  · exact fun quest member fresh => absurd rfl (fresh quest (remaining quest member))
  · intro quest member gone
    have isDone : registry.done quest = true := by
      by_contra isOpen
      exact gone quest (List.mem_filter.mpr ⟨member, by simp [isOpen]⟩) rfl
    have complete : quest.isComplete = true := (Bool.and_eq_true_iff.mp isDone).1
    exact List.all_eq_true.mp complete
  · intro old left new right same
    rw [sound.eq_of_questId (remaining new right) left same]
    exact .refl old
  · rw [rewarded_completions]

-----------------------------------------------------------------------------------------
-- Runs
-----------------------------------------------------------------------------------------

/-- What one call keeps, and the rewards that enter the completed list with it. -/
theorem Sound.call (sound : registry.Sound state)
    (returns : registry.call op state = some (results, after))
    : registry.Sound after
      ∧ registry.Orderly state after
      ∧ after.completed = state.completed ++ (rewarded results).reverse := by
  have event {concerns : QuestObjective → Bool}
      {record : ObjectiveProgress → ObjectiveProgress}
      (returns : registry.onEvent concerns record state = some (results, after))
      : registry.Sound after
        ∧ registry.Orderly state after
        ∧ after.completed = state.completed ++ (rewarded results).reverse := by
    obtain ⟨_, completed, _, silent⟩ := onEvent_advances returns
    obtain ⟨kept, orderly⟩ := sound.onEvent returns
    refine ⟨kept, orderly, ?_⟩
    rw [completed, silent, List.reverse_nil, List.append_nil]
  cases op with
  | acceptQuest questId playerLevel currentTick =>
      have accepted := sound.acceptQuest questId playerLevel currentTick
      obtain ⟨rfl, rfl⟩ := Prod.mk.inj (Option.some.inj returns)
      exact accepted
  | onKill npcType => exact event returns
  | onGather itemId quantity => exact event returns
  | onCraft itemId quantity => exact event returns
  | checkCompletions => exact sound.checkCompletions returns

/-- Progress is recorded for every objective, so no index is out of range. -/
theorem Sound.returns (sound : registry.Sound state) (op : QuestCall)
    : (registry.call op state).isSome := by
  have advances (active : List ActiveQuest)
      (registered
        : ∀ quest ∈ active, ∃ definition,
            registry.get quest.questId = some definition
            ∧ quest.objectives.length = definition.objectives.length)
      (concerns : QuestObjective → Bool) (record : ObjectiveProgress → ObjectiveProgress)
      : (registry.advance concerns record active).isSome := by
    induction active with
    | nil => rfl
    | cons first rest ih =>
        obtain ⟨⟨definition, found, length⟩, others⟩ := List.forall_mem_cons.mp registered
        obtain ⟨out, advanced⟩ := Option.isSome_iff_exists.mp (ih others)
        have within : 0 + definition.objectives.length ≤ first.objectives.length := by omega
        obtain ⟨own, moved⟩ := Option.isSome_iff_exists.mp
          (@ActiveQuest.advanceFrom_returns concerns record _ _ _ within)
        simp [advance, found, advanced, moved]
  have event (concerns : QuestObjective → Bool)
      (record : ObjectiveProgress → ObjectiveProgress)
      : (registry.onEvent concerns record state).isSome := by
    rw [QuestRegistry.onEvent, Option.isSome_map]
    exact advances state.active sound.registered concerns record
  cases op with
  | acceptQuest questId playerLevel currentTick => rfl
  | onKill npcType => exact event _ _
  | onGather itemId quantity => exact event _ _
  | onCraft itemId quantity => exact event _ _
  | checkCompletions =>
      change (registry.checkCompletions state).isSome
      rw [checkCompletions_eq]
      rfl

/-- Every run of a player's operations returns throughout, keeps the active and the completed
quests sound and orderly, and rewards each completion once, so a quest that cannot be repeated
at most once.
-/
theorem questEngine_sound (registry : QuestRegistry) (ops : List QuestCall)
    : (CallTrace.calls registry.call ops .new).length = ops.length
      ∧ (∀ turn ∈ CallTrace.calls registry.call ops .new,
          registry.Sound turn.after ∧ registry.Orderly turn.before turn.after)
      ∧ (rewarded
            ((CallTrace.calls registry.call ops .new).flatMap ReturnedCall.reply)).Perm
          (CallTrace.final registry.call ops .new).completed
      ∧ ∀ id quest, registry.get id = some quest → quest.repeatable = false →
          (rewarded
            ((CallTrace.calls registry.call ops .new).flatMap
              ReturnedCall.reply)).count id ≤ 1 := by
  have start := registry.sound_new
  have keeps := fun op state results after (sound : registry.Sound state)
      (returns : registry.call op state = some (results, after)) => (sound.call returns).1
  have rewards := @CallTrace.past_invariant_final _ _ _ registry.call
    (fun past state =>
      registry.Sound state
      ∧ (rewarded (past.flatMap ReturnedCall.reply)).Perm state.completed)
    (by
      rintro past turn ⟨sound, perm⟩ returns
      obtain ⟨kept, _, completed⟩ := sound.call returns
      refine ⟨kept, ?_⟩
      rw [completed, List.flatMap_append, rewarded, List.filterMap_append]
      apply perm.append
      rw [List.flatMap_singleton]
      exact (List.reverse_perm _).symm)
    ops .new [] ⟨start, .nil⟩
  obtain ⟨soundAtEnd, perm⟩ := rewards
  refine ⟨?_, ?_, perm, ?_⟩
  · apply CallTrace.length_calls registry.Sound _ start
    intro op state sound
    obtain ⟨⟨results, after⟩, returns⟩ := Option.isSome_iff_exists.mp (sound.returns op)
    exact ⟨results, after, returns, (sound.call returns).1⟩
  · intro turn member
    have before := (CallTrace.calls_invariant registry.Sound keeps start turn member).1
    obtain ⟨kept, orderly, _⟩ := before.call (CallTrace.call_of_mem member)
    exact ⟨kept, orderly⟩
  · intro id quest found once
    have total := soundAtEnd.once id quest found once
    have same := perm.count_eq id
    rw [List.nil_append] at same
    omega

end QuestRegistry

end VeloChain
