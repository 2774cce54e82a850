import Mathlib.Algebra.Order.BigOperators.Group.List
import Mathlib.Algebra.Order.Group.Nat
import VeloChain.GameEngine.QuestProgress
import VeloChain.Lib.CallTrace

/-! Which quests a player can complete at all.
Quests that only kills, gatherings and craftings advance can be, once their prerequisites have
been; no operation completes an objective of another kind.
-/

namespace VeloChain

/-- What the player accepts is accepted on a level, or on one below it. -/
def QuestCall.WithinLevel (level : UInt32) : QuestCall → Prop
  | .acceptQuest _ playerLevel _ => playerLevel ≤ level
  | .onKill _ | .onGather _ _ | .onCraft _ _ | .checkCompletions => True

namespace QuestRegistry

/-- Some run of a player on a level completes a quest. -/
def Completable (registry : QuestRegistry) (level id : UInt32) : Prop :=
  ∃ ops : List QuestCall,
    (∀ op ∈ ops, op.WithinLevel level)
    ∧ id ∈ (CallTrace.final registry.call ops .new).completed

/-- A quest is registered, the level suffices, events count all its objectives, and its
prerequisites are attainable.
-/
inductive Attainable (registry : QuestRegistry) (level : UInt32) : UInt32 → Prop
  | intro {id : UInt32} {quest : QuestDef} (found : registry.get id = some quest)
      (reached : quest.requiredLevel ≤ level)
      (counted : ∀ objective ∈ quest.objectives, objective.counted = true)
      (prerequisites : ∀ p ∈ quest.prerequisites, Attainable registry level p)
      : Attainable registry level id

-----------------------------------------------------------------------------------------
-- What is completed is attainable
-----------------------------------------------------------------------------------------

/-- Completed quests are attainable, and active ones but for their objectives, of which none is
complete that events do not count.
-/
structure Warranted (registry : QuestRegistry) (level : UInt32) (state : PlayerQuestState)
    : Prop where
  completed : ∀ id ∈ state.completed, registry.Attainable level id
  active
    : ∀ active ∈ state.active, ∃ quest,
        registry.get active.questId = some quest
        ∧ quest.requiredLevel ≤ level
        ∧ (∀ p ∈ quest.prerequisites, registry.Attainable level p)
        ∧ active.objectives.length = quest.objectives.length
        ∧ ∀ (index : Nat) objective progress, quest.objectives[index]? = some objective →
            active.objectives[index]? = some progress → objective.counted = false →
            progress.complete = false

variable {registry : QuestRegistry} {level : UInt32} {state after : PlayerQuestState}
  {results : List QuestResult} {op : QuestCall}

theorem step_of_uncounted {objective : QuestObjective} (uncounted : objective.counted = false)
    (op : QuestCall) (progress : ObjectiveProgress) : progress.step op objective = progress := by
  cases objective with
  | kill _ _ | gather _ _ | craft _ _ => simp [QuestObjective.counted] at uncounted
  | explore | deliver _ _ _ | talkTo _ => rfl

/-- An event completes no objective that it does not count. -/
theorem Warranted.event (warranted : registry.Warranted level state)
    (isEvent : op.isEvent = true) (returns : registry.call op state = some (results, after))
    : registry.Warranted level after := by
  obtain ⟨all, completed, -⟩ := stepped_of_event isEvent returns
  refine ⟨completed ▸ warranted.completed, fun next isNext => ?_⟩
  obtain ⟨active, member, step⟩ := (exists_of_forall₂ all).1 next isNext
  obtain ⟨quest, found, reached, prerequisites, length, uncompleted⟩ :=
    warranted.active active member
  refine ⟨quest, step.questId ▸ found, reached, prerequisites, step.length.trans length, ?_⟩
  intro index objective progress isObjective isProgress uncounted
  have stepped := step.stepped quest found index objective isObjective
  rw [isProgress] at stepped
  obtain ⟨before, isBefore, rfl⟩ := Option.map_eq_some_iff.mp stepped.symm
  rw [step_of_uncounted uncounted]
  exact uncompleted index objective before isObjective isBefore uncounted

/-- A quest is accepted on a level that suffices, with its prerequisites. -/
theorem Warranted.acceptQuest (warranted : registry.Warranted level state) {questId : UInt32}
    {playerLevel : UInt32} (within : playerLevel ≤ level) (currentTick : UInt64)
    : registry.Warranted level (registry.acceptQuest questId playerLevel currentTick state).2 := by
  rcases registry.acceptQuest_cases questId playerLevel currentTick state
    with ⟨e, refused⟩ | ⟨quest, acceptable, reached, accepted⟩
  · rw [refused]
    exact warranted
  · rw [accepted]
    refine ⟨warranted.completed, fun active member => ?_⟩
    rcases List.mem_append.mp member with old | new
    · exact warranted.active active old
    · rw [List.mem_singleton.mp new]
      refine ⟨quest, acceptable.found, UInt32.le_trans reached within, ?_, List.length_map _, ?_⟩
      · exact fun p isPrerequisite =>
          warranted.completed p (acceptable.prerequisites p isPrerequisite)
      · intro index objective progress _ isProgress _
        obtain ⟨_, _, rfl⟩ := Option.map_eq_some_iff.mp (List.getElem?_map.symm.trans isProgress)
        rfl

/-- What is done is attainable: none of its objectives is left out by the events. -/
theorem Warranted.checkCompletions (warranted : registry.Warranted level state)
    (returns : registry.checkCompletions state = some (results, after))
    : registry.Warranted level after := by
  rw [checkCompletions_eq] at returns
  obtain ⟨-, rfl⟩ := Prod.mk.inj (Option.some.inj returns)
  refine ⟨fun id member => ?_, fun active member =>
    warranted.active active (List.mem_filter.mp member).1⟩
  rcases List.mem_append.mp member with old | new
  · exact warranted.completed id old
  · obtain ⟨active, isDone, rfl⟩ := List.mem_map.mp (List.mem_reverse.mp new)
    obtain ⟨member, done⟩ := List.mem_filter.mp isDone
    obtain ⟨quest, found, reached, prerequisites, length, uncompleted⟩ :=
      warranted.active active member
    refine .intro found reached (fun objective isObjective => ?_) prerequisites
    by_contra uncounted
    obtain ⟨index, inRange, isHere⟩ := List.mem_iff_getElem.mp isObjective
    have hasProgress := List.getElem?_eq_getElem (length ▸ inRange)
    have incomplete := uncompleted index objective _ (isHere ▸ List.getElem?_eq_getElem inRange)
      hasProgress (by simpa using uncounted)
    have complete : active.isComplete = true := (Bool.and_eq_true_iff.mp done).1
    have := List.all_eq_true.mp complete _ (List.mem_of_getElem? hasProgress)
    rw [incomplete] at this
    exact absurd this (by decide)

theorem Warranted.call (warranted : registry.Warranted level state)
    (within : op.WithinLevel level)
    (returns : registry.call op state = some (results, after))
    : registry.Warranted level after := by
  cases op with
  | acceptQuest questId playerLevel currentTick =>
      have accepted := @Warranted.acceptQuest _ _ _ warranted questId _ within currentTick
      obtain ⟨-, rfl⟩ := Prod.mk.inj (Option.some.inj returns)
      exact accepted
  | onKill _ | onGather _ _ | onCraft _ _ => exact warranted.event rfl returns
  | checkCompletions => exact warranted.checkCompletions returns

/-- Only what is attainable is ever completed. -/
theorem attainable_of_completable {id : UInt32} (completable : registry.Completable level id)
    : registry.Attainable level id := by
  obtain ⟨ops, within, completed⟩ := completable
  have start : registry.Warranted level .new :=
    ⟨by simp [PlayerQuestState.new], by simp [PlayerQuestState.new]⟩
  have allowed
      : ∀ turn ∈ CallTrace.calls registry.call ops .new, turn.op.WithinLevel level := by
    intro turn member
    obtain ⟨earlier, later, split, -⟩ := CallTrace.exists_prefix_of_mem member
    exact within turn.op (by simp [split])
  have keeps (turn : QuestTurn) (warranted : registry.Warranted level turn.before)
      (within : turn.op.WithinLevel level)
      (returns : registry.call turn.op turn.before = some (turn.reply, turn.after)) :=
    warranted.call within returns
  exact (CallTrace.invariant_of_allowed keeps allowed start).2.completed id completed

-----------------------------------------------------------------------------------------
-- What is attainable is completed by some run
-----------------------------------------------------------------------------------------

end QuestRegistry

/-- The event that brings an objective one further. -/
def QuestObjective.unitEvent : QuestObjective → Option QuestCall
  | .kill target _ => some (.onKill target)
  | .gather item _ => some (.onGather item 1)
  | .craft item _ => some (.onCraft item 1)
  | .explore | .deliver _ _ _ | .talkTo _ => none

theorem exists_unitEvent {objective : QuestObjective} (counted : objective.counted = true)
    (level : UInt32)
    : ∃ op, objective.unitEvent = some op ∧ op.isEvent = true ∧ op.WithinLevel level := by
  cases objective with
  | kill _ _ | gather _ _ | craft _ _ => exact ⟨_, rfl, rfl, trivial⟩
  | explore | deliver _ _ _ | talkTo _ => simp [QuestObjective.counted] at counted

namespace ObjectiveProgress

/-- An objective that is not complete has less than is required, or nothing yet. -/
def Underway (progress : ObjectiveProgress) : Prop :=
  progress.complete = false → progress.current = 0 ∨ progress.current < progress.required

/-- How many events an objective needs at most. -/
def left (progress : ObjectiveProgress) : Nat :=
  if progress.complete then 0 else progress.required.toNat - progress.current.toNat + 1

variable {progress : ObjectiveProgress}

/-- One more completes an objective, or leaves it underway with less to do. -/
theorem left_recordItems_one (underway : progress.Underway)
    (incomplete : progress.complete = false)
    : (progress.recordItems 1).Underway ∧ (progress.recordItems 1).left < progress.left := by
  have sum := UInt32.toNat_add progress.current 1
  have bound := progress.required.toNat_lt
  have room : progress.current.toNat = 0 ∨ progress.current.toNat < progress.required.toNat :=
    (underway incomplete).imp (fun none => by rw [none]; rfl) UInt32.lt_iff_toNat_lt.mp
  rw [UInt32.toNat_one, Nat.mod_eq_of_lt (by omega)] at sum
  rw [recordItems]
  split
  next => exact ⟨fun still => by simp at still, by simp [left, incomplete]⟩
  next below =>
    have := UInt32.le_iff_toNat_le.not.mp below
    refine ⟨fun _ => Or.inr (UInt32.not_le.mp below), ?_⟩
    simp only [left, incomplete, Bool.false_eq_true, if_false]
    omega

/-- A kill does the same: whether the count is cut off makes no difference to what is left. -/
theorem left_recordKill (underway : progress.Underway) (incomplete : progress.complete = false)
    : progress.recordKill.Underway ∧ progress.recordKill.left < progress.left := by
  have items := left_recordItems_one underway incomplete
  rw [recordItems] at items
  rw [recordKill]
  split at items
  next reached =>
    rw [if_pos reached]
    exact ⟨fun still => by simp at still, items.2⟩
  next below => rwa [if_neg below]

/-- A unit event does nothing to an objective, or is recorded once in one that is not complete. -/
theorem step_unitEvent_cases {source : QuestObjective} {op : QuestCall}
    (isUnit : source.unitEvent = some op) (objective : QuestObjective)
    : progress.step op objective = progress
      ∨ (progress.complete = false
        ∧ (progress.step op objective = progress.recordKill
          ∨ progress.step op objective = progress.recordItems 1)) := by
  cases source with
  | explore | deliver _ _ _ | talkTo _ => simp [QuestObjective.unitEvent] at isUnit
  | kill _ _ =>
      obtain rfl := Option.some.inj isUnit
      cases objective with
      | kill _ _ =>
          rw [step]
          split
          next concerned => exact Or.inr ⟨concerned.2, Or.inl rfl⟩
          next => exact Or.inl rfl
      | _ => exact Or.inl rfl
  | gather _ _ =>
      obtain rfl := Option.some.inj isUnit
      cases objective with
      | gather _ _ =>
          rw [step]
          split
          next concerned => exact Or.inr ⟨concerned.2, Or.inr rfl⟩
          next => exact Or.inl rfl
      | _ => exact Or.inl rfl
  | craft _ _ =>
      obtain rfl := Option.some.inj isUnit
      cases objective with
      | craft _ _ =>
          rw [step]
          split
          next concerned => exact Or.inr ⟨concerned.2, Or.inr rfl⟩
          next => exact Or.inl rfl
      | _ => exact Or.inl rfl

/-- A unit event never takes an objective back. -/
theorem left_step {source : QuestObjective} {op : QuestCall}
    (isUnit : source.unitEvent = some op) (underway : progress.Underway)
    (objective : QuestObjective)
    : (progress.step op objective).Underway
      ∧ (progress.step op objective).left ≤ progress.left := by
  rcases step_unitEvent_cases isUnit objective with same | ⟨incomplete, isKill | isItem⟩
  · rw [same]
    exact ⟨underway, Nat.le_refl _⟩
  · rw [isKill]
    exact (left_recordKill underway incomplete).imp_right Nat.le_of_lt
  · rw [isItem]
    exact (left_recordItems_one underway incomplete).imp_right Nat.le_of_lt

/-- Its own event takes an objective that is not complete further. -/
theorem left_step_own {objective : QuestObjective} {op : QuestCall}
    (isUnit : objective.unitEvent = some op) (underway : progress.Underway)
    (incomplete : progress.complete = false)
    : (progress.step op objective).left < progress.left := by
  cases objective with
  | explore | deliver _ _ _ | talkTo _ => simp [QuestObjective.unitEvent] at isUnit
  | kill _ _ =>
      obtain rfl := Option.some.inj isUnit
      rw [step, if_pos ⟨rfl, incomplete⟩]
      exact (left_recordKill underway incomplete).2
  | gather _ _ | craft _ _ =>
      obtain rfl := Option.some.inj isUnit
      rw [step, if_pos ⟨rfl, incomplete⟩]
      exact (left_recordItems_one underway incomplete).2

end ObjectiveProgress

namespace ActiveQuest

/-- How many events a quest needs at most. -/
def left (active : ActiveQuest) : Nat := (active.objectives.map ObjectiveProgress.left).sum

variable {registry : QuestRegistry} {op : QuestCall} {before after : ActiveQuest}
  {quest : QuestDef}

/-- The objectives after an operation are those before, each a step on. -/
theorem objectives_of_stepped (step : before.Stepped registry op after)
    (found : registry.get before.questId = some quest)
    (length : before.objectives.length = quest.objectives.length)
    : after.objectives
      = (quest.objectives.zip before.objectives).map (fun pair => pair.2.step op pair.1) := by
  apply List.ext_getElem?
  intro index
  rw [List.getElem?_map]
  by_cases inRange : index < quest.objectives.length
  · have hasProgress : index < before.objectives.length := length ▸ inRange
    have both
        : (quest.objectives.zip before.objectives)[index]?
          = some (quest.objectives[index], before.objectives[index]) :=
      List.getElem?_zip_eq_some.mpr
        ⟨List.getElem?_eq_getElem inRange, List.getElem?_eq_getElem hasProgress⟩
    rw [step.stepped quest found index _ (List.getElem?_eq_getElem inRange),
      List.getElem?_eq_getElem hasProgress, both]
    rfl
  · have afterEnd : after.objectives.length ≤ index := by
      rw [step.length, length]
      omega
    rw [List.getElem?_eq_none afterEnd, List.getElem?_eq_none (by rw [List.length_zip]; omega)]
    rfl

/-- The event of an objective that is not complete takes a quest further. -/
theorem left_stepped (step : before.Stepped registry op after)
    (found : registry.get before.questId = some quest)
    (length : before.objectives.length = quest.objectives.length)
    (underway : ∀ progress ∈ before.objectives, progress.Underway)
    {index : Nat} {objective : QuestObjective} {progress : ObjectiveProgress}
    (isObjective : quest.objectives[index]? = some objective)
    (isProgress : before.objectives[index]? = some progress)
    (incomplete : progress.complete = false) (isUnit : objective.unitEvent = some op)
    : (∀ progress ∈ after.objectives, progress.Underway) ∧ after.left < before.left := by
  have objectives := objectives_of_stepped step found length
  have second : ∀ pair ∈ quest.objectives.zip before.objectives, pair.2.Underway :=
    fun pair member => underway pair.2 (List.of_mem_zip member).2
  constructor
  · intro next member
    rw [objectives] at member
    obtain ⟨pair, isPair, rfl⟩ := List.mem_map.mp member
    exact (ObjectiveProgress.left_step isUnit (second pair isPair) pair.1).1
  · have old
        : before.left
          = ((quest.objectives.zip before.objectives).map (fun pair => pair.2.left)).sum := by
      rw [left]
      conv_lhs => rw [← List.map_snd_zip (Nat.le_of_eq length), List.map_map]
      rfl
    rw [old, left, objectives, List.map_map]
    refine List.sum_lt_sum _ _
      (fun pair isPair => (ObjectiveProgress.left_step isUnit (second pair isPair) pair.1).2)
      ⟨(objective, progress), ?_, ?_⟩
    · exact List.mem_of_getElem? (List.getElem?_zip_eq_some.mpr ⟨isObjective, isProgress⟩)
    · exact ObjectiveProgress.left_step_own isUnit
        (underway progress (List.mem_of_getElem? isProgress)) incomplete

end ActiveQuest

namespace QuestRegistry

/-- What calls of a player on a level lead to. -/
def Leads (registry : QuestRegistry) (level : UInt32)
    : PlayerQuestState → PlayerQuestState → Prop :=
  Relation.ReflTransGen fun state next =>
    ∃ op reply, op.WithinLevel level ∧ registry.call op state = some (reply, next)

/-- The player has no active quest and may have one. -/
structure Idle (registry : QuestRegistry) (state : PlayerQuestState) : Prop where
  sound : registry.Sound state
  active : state.active = []
  room : 0 < state.maxActive

variable {registry : QuestRegistry} {level id : UInt32} {state : PlayerQuestState}
  {quest : QuestDef}

/-- The only active quest is completed objective by objective, by induction on what is left. -/
theorem leads_to_complete {active : ActiveQuest} (sound : registry.Sound state)
    (only : state.active = [active]) (found : registry.get active.questId = some quest)
    (counted : ∀ objective ∈ quest.objectives, objective.counted = true)
    (underway : ∀ progress ∈ active.objectives, progress.Underway)
    : ∃ after last,
        registry.Leads level state after
        ∧ registry.Sound after
        ∧ after.active = [last]
        ∧ last.questId = active.questId
        ∧ last.isComplete = true
        ∧ after.completed = state.completed
        ∧ after.maxActive = state.maxActive := by
  generalize isLeft : active.left = left
  induction left using Nat.strong_induction_on generalizing state active with
  | h left ih =>
      by_cases complete : active.isComplete = true
      · exact ⟨state, active, .refl, sound, only, rfl, complete, rfl, rfl⟩
      · have notAll : active.isComplete = false := by simpa using complete
        obtain ⟨progress, member, incomplete⟩ := List.all_eq_false.mp notAll
        obtain ⟨index, inRange, isHere⟩ := List.mem_iff_getElem.mp member
        have isProgress : active.objectives[index]? = some progress :=
          isHere ▸ List.getElem?_eq_getElem inRange
        have length : active.objectives.length = quest.objectives.length := by
          obtain ⟨definition, isQuest, length⟩ := sound.registered active (by simp [only])
          obtain rfl := Option.some.inj (found.symm.trans isQuest)
          exact length
        have isObjective := List.getElem?_eq_getElem (length ▸ inRange)
        obtain ⟨op, isUnit, isEvent, within⟩ :=
          exists_unitEvent (counted _ (List.mem_of_getElem? isObjective)) level
        obtain ⟨⟨results, next⟩, returns⟩ := Option.isSome_iff_exists.mp (sound.returns op)
        obtain ⟨all, completed, maxActive⟩ := stepped_of_event isEvent returns
        rw [only] at all
        obtain ⟨later, rest, step, others, isNext⟩ := List.forall₂_cons_left_iff.mp all
        obtain rfl := List.forall₂_nil_left_iff.mp others
        obtain ⟨stillUnderway, less⟩ :=
          ActiveQuest.left_stepped step found length underway isObjective isProgress
            (by simpa using incomplete) isUnit
        obtain ⟨after, last, leads, soundAfter, onlyAfter, sameId, isDone, same, sameMax⟩ :=
          ih later.left (isLeft ▸ less) (sound.call returns).1 isNext
            (step.questId ▸ found) stillUnderway rfl
        exact ⟨after, last, .head ⟨op, results, within, returns⟩ leads, soundAfter, onlyAfter,
          sameId.trans step.questId, isDone, same.trans completed, sameMax.trans maxActive⟩

/-- What acceptance checks suffices for it. -/
theorem acceptQuest_of_acceptable (acceptable : registry.Acceptable id quest state)
    (reached : quest.requiredLevel ≤ level) (currentTick : UInt64)
    : registry.acceptQuest id level currentTick state
      = (.accepted id,
          { state with
            active :=
              state.active
                ++ [{ questId := id
                      objectives :=
                        quest.objectives.map
                          (fun objective =>
                            { current := 0
                              required := objective.required
                              complete := false })
                      acceptedTick := currentTick }] }) := by
  obtain ⟨found, prerequisites, inactive, first, room⟩ := acceptable
  have nothingMissing
      : quest.prerequisites.filter (fun p => !state.isCompleted p) = [] := by
    rw [List.filter_eq_nil_iff]
    intro p member
    simpa [PlayerQuestState.isCompleted] using prerequisites p member
  have notActive : state.isActive id = false := by
    simpa [PlayerQuestState.isActive] using inactive
  have notOver : (!quest.repeatable && state.isCompleted id) = false := by
    cases isRepeatable : quest.repeatable with
    | true => rfl
    | false => simpa [PlayerQuestState.isCompleted] using first isRepeatable
  simp only [acceptQuest, found]
  rw [if_neg (UInt32.not_lt.mpr reached), if_neg (by simp [nothingMissing]),
    if_neg (by simp [notActive]), if_neg (by simp [notOver]), if_neg (Nat.not_le.mpr room)]

theorem call_acceptQuest (registry : QuestRegistry) (questId playerLevel : UInt32)
    (currentTick : UInt64) (state : PlayerQuestState)
    : registry.call (.acceptQuest questId playerLevel currentTick) state
      = some
          ([(registry.acceptQuest questId playerLevel currentTick state).1],
            (registry.acceptQuest questId playerLevel currentTick state).2) :=
  rfl

/-- A quest whose prerequisites are completed is completed next. -/
theorem Idle.leads_to_quest (idle : registry.Idle state) (found : registry.get id = some quest)
    (reached : quest.requiredLevel ≤ level)
    (counted : ∀ objective ∈ quest.objectives, objective.counted = true)
    (prerequisites : ∀ p ∈ quest.prerequisites, p ∈ state.completed)
    : ∃ after,
        registry.Leads level state after
        ∧ registry.Idle after
        ∧ state.completed ⊆ after.completed
        ∧ id ∈ after.completed := by
  by_cases already : id ∈ state.completed
  · exact ⟨state, .refl, idle, fun _ member => member, already⟩
  · have acceptable : registry.Acceptable id quest state :=
      ⟨found, prerequisites, by simp [idle.active], fun _ => already,
        by rw [idle.active]; exact idle.room⟩
    have accepted := acceptQuest_of_acceptable acceptable reached 0
    rw [idle.active, List.nil_append] at accepted
    have returns := registry.call_acceptQuest id level 0 state
    rw [accepted] at returns
    have sound := (idle.sound.call returns).1
    have within : (QuestCall.acceptQuest id level 0).WithinLevel level := UInt32.le_refl level
    have always : QuestCall.checkCompletions.WithinLevel level := trivial
    obtain ⟨done, last, leads, soundDone, only, sameId, isComplete, completed, maxActive⟩ :=
      leads_to_complete sound rfl found counted (fun progress member _ => by
        obtain ⟨objective, -, rfl⟩ := List.mem_map.mp member
        exact Or.inl rfl)
    have isDone : registry.done last = true := by
      rw [QuestRegistry.done, isComplete, sameId, found]
      rfl
    have checked : registry.call .checkCompletions done = some _ :=
      registry.checkCompletions_eq done
    rw [only] at checked
    have removed : [last].filter (fun quest => !registry.done quest) = [] := by simp [isDone]
    refine ⟨_, .head ⟨_, _, within, returns⟩ (.tail leads ⟨_, _, always, checked⟩),
      ⟨(soundDone.call checked).1, removed, maxActive ▸ idle.room⟩,
      fun other member => List.mem_append_left _ (completed ▸ member),
      List.mem_append_right _ ?_⟩
    simp [isDone, sameId]

/-- Quests that can each be completed next can be completed one after the other. -/
theorem leads_to_all {ids : List UInt32}
    (each
      : ∀ id ∈ ids, ∀ state, registry.Idle state →
          ∃ after,
            registry.Leads level state after
            ∧ registry.Idle after
            ∧ state.completed ⊆ after.completed
            ∧ id ∈ after.completed)
    (idle : registry.Idle state)
    : ∃ after,
        registry.Leads level state after
        ∧ registry.Idle after
        ∧ state.completed ⊆ after.completed
        ∧ ∀ id ∈ ids, id ∈ after.completed := by
  induction ids generalizing state with
  | nil => exact ⟨state, .refl, idle, fun _ member => member, by simp⟩
  | cons first rest ih =>
      obtain ⟨here, others⟩ := List.forall_mem_cons.mp each
      obtain ⟨middle, leads, isIdle, keeps, completes⟩ := here state idle
      obtain ⟨after, more, idleAfter, keepsMore, completesRest⟩ := ih others isIdle
      exact ⟨after, leads.trans more, idleAfter, fun _ member => keepsMore (keeps member),
        List.forall_mem_cons.mpr ⟨keepsMore completes, completesRest⟩⟩

/-- What is attainable is completed from every idle state, by induction on how it is attained. -/
theorem Attainable.leads (attainable : registry.Attainable level id)
    : ∀ state, registry.Idle state →
        ∃ after,
          registry.Leads level state after
          ∧ registry.Idle after
          ∧ state.completed ⊆ after.completed
          ∧ id ∈ after.completed := by
  induction attainable with
  | intro found reached counted _ ih =>
      intro state idle
      obtain ⟨middle, leads, isIdle, keeps, prerequisites⟩ := leads_to_all ih idle
      obtain ⟨after, more, idleAfter, keepsMore, completes⟩ :=
        isIdle.leads_to_quest found reached counted prerequisites
      exact ⟨after, leads.trans more, idleAfter, fun _ member => keepsMore (keeps member),
        completes⟩

theorem completable_of_attainable (attainable : registry.Attainable level id)
    : registry.Completable level id := by
  have idle : registry.Idle .new := ⟨registry.sound_new, rfl, by decide⟩
  obtain ⟨after, leads, -, -, completed⟩ := attainable.leads .new idle
  obtain ⟨ops, within, isAfter⟩ := CallTrace.exists_final_of_reflTransGen leads
  exact ⟨ops, within, isAfter ▸ completed⟩

/-- A quest can be completed by a player on a level exactly when it is attainable there: events
count all of its objectives, its level is reached, and its prerequisites are attainable.
-/
theorem completable_iff (registry : QuestRegistry) (level id : UInt32)
    : registry.Completable level id ↔ registry.Attainable level id :=
  ⟨attainable_of_completable, completable_of_attainable⟩

/-- The first quest asks to explore, which no operation notes. -/
theorem completable_fails_on_firstSteps
    : ¬ ∀ id, (∃ quest, defaultRegistry.get id = some quest) →
        ∃ level, defaultRegistry.Completable level id := by
  intro claimed
  have isQuest
      : defaultRegistry.get 1
        = some
            { id := 1
              objectives := [.explore]
              reward := { experience := 50, items := [(1, 1)], gold := 10 }
              requiredLevel := 1
              prerequisites := []
              repeatable := false } :=
    rfl
  obtain ⟨level, completable⟩ := claimed 1 ⟨_, isQuest⟩
  cases attainable_of_completable completable with
  | intro found _ counted _ =>
      obtain rfl := Option.some.inj (isQuest.symm.trans found)
      have := counted .explore List.mem_cons_self
      exact absurd this (by decide)

-----------------------------------------------------------------------------------------
-- The built-in quests
-----------------------------------------------------------------------------------------

/-- What is registered comes from the list, or was registered before. -/
theorem get_foldl_register {quests : List QuestDef} {registry : QuestRegistry}
    (found : (quests.foldl register registry).get id = some quest)
    : (quest ∈ quests ∧ quest.id = id) ∨ registry.get id = some quest := by
  induction quests generalizing registry with
  | nil => exact Or.inr found
  | cons first rest ih =>
      rcases ih found with ⟨member, isId⟩ | earlier
      · exact Or.inl ⟨List.mem_cons_of_mem _ member, isId⟩
      · simp only [get, register, FinMap.lookup_insert_eq] at earlier
        split at earlier
        next same =>
          rw [← Option.some.inj earlier]
          exact Or.inl ⟨List.mem_cons_self, same.symm⟩
        next => exact Or.inr earlier

/-- Of the built-in quests just the gathering ones and the smith's challenge are attainable. -/
theorem attainable_defaultRegistry_iff (level id : UInt32)
    : defaultRegistry.Attainable level id
      ↔ (id = 2 ∧ 1 ≤ level) ∨ ((id = 10 ∨ id = 12) ∧ 3 ≤ level) := by
  constructor
  · intro attainable
    induction attainable with
    | @intro id quest found reached counted _ ih =>
        rcases get_foldl_register found with ⟨member, rfl⟩ | none
        · simp only [defaultQuests, List.mem_cons, List.not_mem_nil, or_false] at member
          rcases member with rfl | rfl | rfl | rfl | rfl | rfl | rfl | rfl | rfl
          all_goals simp_all [QuestObjective.counted]
        · simp [get, new] at none
  · have iron (reached : 3 ≤ level) : defaultRegistry.Attainable level 10 :=
      .intro rfl reached (by decide) (by simp)
    rintro (⟨rfl, reached⟩ | ⟨rfl | rfl, reached⟩)
    · exact .intro rfl reached (by decide) (by simp)
    · exact iron reached
    · exact .intro rfl reached (by decide) (by simpa using iron reached)

end QuestRegistry

end VeloChain
