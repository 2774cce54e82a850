import VeloChain.GameEngine.QuestReachability

/-! Quests on offer, and players that can get no further.
A trap is a quest that can be accepted but has an objective that no event counts: it stays active
for ever. A player has five places. With fewer traps on a level, everything attainable can still
be completed from wherever a run has led, by accepting what is offered only; with five traps there
is a run after which nothing is ever completed.
-/

namespace VeloChain

namespace QuestRegistry

/-- Get quests available to a player, in the order of the walk. -/
def availableQuests (registry : QuestRegistry) (order : IterationOrder UInt32 QuestDef)
    (playerLevel : UInt32) (completed active : List UInt32) : List QuestDef :=
  ((order.keys registry.quests).filterMap registry.quests.lookup).filter (fun quest =>
    quest.requiredLevel ≤ playerLevel
      && !active.contains quest.id
      && (quest.repeatable || !completed.contains quest.id)
      && quest.prerequisites.all (fun p => completed.contains p))

/-- A registry in which the quests of a list are registered, one after the other. -/
def ofList (quests : List QuestDef) : QuestRegistry := quests.foldl register new

/-- The quest is offered to a player of the level. -/
def Offers (registry : QuestRegistry) (order : IterationOrder UInt32 QuestDef) (level : UInt32)
    (state : PlayerQuestState) (id : UInt32) : Prop :=
  ∃ quest ∈ registry.availableQuests order level state.completed
      (state.active.map ActiveQuest.questId),
    quest.id = id

/-- The level suffices for a quest and its prerequisites are attainable, but it has an objective
that no event counts.
-/
def Trap (registry : QuestRegistry) (level id : UInt32) : Prop :=
  ∃ quest,
    registry.get id = some quest
    ∧ quest.requiredLevel ≤ level
    ∧ (∀ p ∈ quest.prerequisites, registry.Attainable level p)
    ∧ ∃ objective ∈ quest.objectives, objective.counted = false

/-- What a player on a level does who accepts only quests that are offered. -/
def Plays (registry : QuestRegistry) (order : IterationOrder UInt32 QuestDef) (level : UInt32)
    (state next : PlayerQuestState) : Prop :=
  ∃ op reply,
    (∀ id playerLevel tick, op = .acceptQuest id playerLevel tick →
      playerLevel = level ∧ registry.Offers order level state id)
    ∧ registry.call op state = some (reply, next)

variable {registry : QuestRegistry} {order : IterationOrder UInt32 QuestDef} {level id : UInt32}
  {state after : PlayerQuestState} {quest : QuestDef}

-----------------------------------------------------------------------------------------
-- Quests on offer
-----------------------------------------------------------------------------------------

/-- Registered quests stand under their own ids. -/
theorem id_of_get_ofList {quests : List QuestDef} (found : (ofList quests).get id = some quest)
    : quest ∈ quests ∧ quest.id = id := by
  rcases get_foldl_register found with own | none
  · exact own
  · simp [get, new] at none

/-- What is offered has all that acceptance checks, but perhaps no room. -/
theorem offers_iff (keyed : ∀ id quest, registry.get id = some quest → quest.id = id)
    : registry.Offers order level state id
      ↔ ∃ quest,
          registry.get id = some quest
          ∧ quest.requiredLevel ≤ level
          ∧ (∀ active ∈ state.active, active.questId ≠ id)
          ∧ (quest.repeatable = false → id ∉ state.completed)
          ∧ ∀ p ∈ quest.prerequisites, p ∈ state.completed := by
  have passes (quest : QuestDef)
      : (decide (quest.requiredLevel ≤ level)
            && !(state.active.map ActiveQuest.questId).contains quest.id
            && (quest.repeatable || !state.completed.contains quest.id)
            && quest.prerequisites.all (fun p => state.completed.contains p)) = true
        ↔ quest.requiredLevel ≤ level
          ∧ (∀ active ∈ state.active, active.questId ≠ quest.id)
          ∧ (quest.repeatable = false → quest.id ∉ state.completed)
          ∧ ∀ p ∈ quest.prerequisites, p ∈ state.completed := by
    cases quest.repeatable <;> simp [and_assoc]
  unfold Offers availableQuests
  simp only [List.mem_filter, List.mem_filterMap, order.mem_keys, passes]
  constructor
  · rintro ⟨quest, ⟨⟨key, -, found⟩, reached, inactive, first, prerequisites⟩, rfl⟩
    have own := keyed key quest found
    subst own
    exact ⟨quest, found, reached, inactive, first, prerequisites⟩
  · rintro ⟨quest, found, reached, inactive, first, prerequisites⟩
    have own := keyed id quest found
    subst own
    exact ⟨quest, ⟨⟨quest.id, Finmap.mem_of_lookup_eq_some found, found⟩, reached, inactive,
      first, prerequisites⟩, rfl⟩

/-- Acceptance takes exactly the quests on offer, as long as there is room. -/
theorem acceptQuest_accepted_iff
    (keyed : ∀ id quest, registry.get id = some quest → quest.id = id)
    (order : IterationOrder UInt32 QuestDef) (currentTick : UInt64)
    : (registry.acceptQuest id level currentTick state).1 = .accepted id
      ↔ registry.Offers order level state id ∧ state.active.length < state.maxActive := by
  rw [offers_iff keyed]
  constructor
  · intro accepts
    rcases registry.acceptQuest_cases id level currentTick state
      with ⟨e, refused⟩ | ⟨quest, acceptable, reached, -⟩
    · rw [refused] at accepts
      cases accepts
    · exact ⟨⟨quest, acceptable.found, reached, acceptable.inactive, acceptable.first,
        acceptable.prerequisites⟩, acceptable.room⟩
  · rintro ⟨⟨quest, found, reached, inactive, first, prerequisites⟩, room⟩
    rw [acceptQuest_of_acceptable ⟨found, prerequisites, inactive, first, room⟩ reached]

end QuestRegistry

-----------------------------------------------------------------------------------------
-- What every run of a player on a level keeps
-----------------------------------------------------------------------------------------

namespace ObjectiveProgress

theorem underway_recordItems (quantity : UInt32) (progress : ObjectiveProgress)
    : (progress.recordItems quantity).Underway := by
  intro incomplete
  unfold recordItems at incomplete ⊢
  simp only at incomplete ⊢
  split at incomplete
  next => cases incomplete
  next below =>
    rw [if_neg below]
    exact .inr (UInt32.not_le.mp below)

theorem underway_recordKill (progress : ObjectiveProgress) : progress.recordKill.Underway := by
  intro incomplete
  unfold recordKill at incomplete ⊢
  simp only at incomplete ⊢
  split at incomplete
  next => cases incomplete
  next below =>
    rw [if_neg below]
    exact .inr (UInt32.not_le.mp below)

/-- Whatever happens, an objective stays underway, even where its count wraps around. -/
theorem underway_step {progress : ObjectiveProgress} (underway : progress.Underway)
    (op : QuestCall) (objective : QuestObjective)
    : (progress.step op objective).Underway := by
  unfold step
  split
  · split
    · exact progress.underway_recordKill
    · exact underway
  · split
    · exact underway_recordItems _ progress
    · exact underway
  · split
    · exact underway_recordItems _ progress
    · exact underway
  · exact underway

end ObjectiveProgress

theorem map_questId_of_stepped {registry : QuestRegistry} {op : QuestCall}
    {before after : List ActiveQuest}
    (all : List.Forall₂ (ActiveQuest.Stepped registry op) before after)
    : after.map ActiveQuest.questId = before.map ActiveQuest.questId := by
  induction all with
  | nil => rfl
  | cons step _ ih => rw [List.map_cons, List.map_cons, step.questId, ih]

namespace QuestRegistry

variable {registry : QuestRegistry} {order : IterationOrder UInt32 QuestDef} {level id : UInt32}
  {state after : PlayerQuestState} {quest : QuestDef} {op : QuestCall}
  {results : List QuestResult}

/-- What every run of a player on a level keeps. -/
structure Prepared (registry : QuestRegistry) (level : UInt32) (state : PlayerQuestState)
    : Prop where
  sound : registry.Sound state
  warranted : registry.Warranted level state
  underway : ∀ active ∈ state.active, ∀ progress ∈ active.objectives, progress.Underway
  places : state.maxActive = PlayerQuestState.new.maxActive

theorem prepared_new (registry : QuestRegistry) (level : UInt32)
    : registry.Prepared level .new :=
  ⟨registry.sound_new, ⟨by simp [PlayerQuestState.new], by simp [PlayerQuestState.new]⟩,
    by simp [PlayerQuestState.new], rfl⟩

/-- Every call keeps what is underway, and the number of places. -/
theorem underway_call (sound : registry.Sound state)
    (underway : ∀ active ∈ state.active, ∀ progress ∈ active.objectives, progress.Underway)
    (returns : registry.call op state = some (results, after))
    : (∀ active ∈ after.active, ∀ progress ∈ active.objectives, progress.Underway)
      ∧ after.maxActive = state.maxActive := by
  have event (isEvent : op.isEvent = true)
      : (∀ active ∈ after.active, ∀ progress ∈ active.objectives, progress.Underway)
        ∧ after.maxActive = state.maxActive := by
    obtain ⟨all, -, maxActive⟩ := stepped_of_event isEvent returns
    refine ⟨fun next isNext progress member => ?_, maxActive⟩
    obtain ⟨active, isActive, step⟩ := (exists_of_forall₂ all).1 next isNext
    obtain ⟨quest, found, length⟩ := sound.registered active isActive
    rw [ActiveQuest.objectives_of_stepped step found length] at member
    obtain ⟨pair, isPair, rfl⟩ := List.mem_map.mp member
    exact ObjectiveProgress.underway_step
      (underway active isActive _ (List.of_mem_zip isPair).2) op pair.1
  cases op with
  | acceptQuest questId playerLevel tick =>
      have called := registry.call_acceptQuest questId playerLevel tick state
      obtain ⟨-, rfl⟩ := Prod.mk.inj (Option.some.inj (called.symm.trans returns))
      rcases registry.acceptQuest_cases questId playerLevel tick state
        with ⟨e, refused⟩ | ⟨quest, -, -, accepted⟩
      · rw [refused]
        exact ⟨underway, rfl⟩
      · rw [accepted]
        refine ⟨fun active member progress isProgress => ?_, rfl⟩
        rcases List.mem_append.mp member with old | new
        · exact underway active old progress isProgress
        · rw [List.mem_singleton.mp new] at isProgress
          obtain ⟨_, -, rfl⟩ := List.mem_map.mp isProgress
          exact fun _ => .inl rfl
  | checkCompletions =>
      have checked := registry.checkCompletions_eq state
      obtain ⟨-, rfl⟩ := Prod.mk.inj (Option.some.inj (checked.symm.trans returns))
      exact ⟨fun active member => underway active (List.mem_filter.mp member).1, rfl⟩
  | onKill _ | onGather _ _ | onCraft _ _ => exact event rfl

theorem Prepared.call (prepared : registry.Prepared level state)
    (within : op.WithinLevel level) (returns : registry.call op state = some (results, after))
    : registry.Prepared level after := by
  obtain ⟨underway, maxActive⟩ := underway_call prepared.sound prepared.underway returns
  exact ⟨(prepared.sound.call returns).1, prepared.warranted.call within returns, underway,
    maxActive.trans prepared.places⟩

/-- Every run of a player on a level is prepared in the end. -/
theorem prepared_final {ops : List QuestCall} (within : ∀ op ∈ ops, op.WithinLevel level)
    : registry.Prepared level (CallTrace.final registry.call ops .new) := by
  have allowed
      : ∀ turn ∈ CallTrace.calls registry.call ops .new, turn.op.WithinLevel level := by
    intro turn member
    obtain ⟨earlier, later, split, -⟩ := CallTrace.exists_prefix_of_mem member
    exact within turn.op (by simp [split])
  have keeps (turn : QuestTurn) (prepared : registry.Prepared level turn.before)
      (within : turn.op.WithinLevel level)
      (returns : registry.call turn.op turn.before = some (turn.reply, turn.after)) :=
    prepared.call within returns
  exact (CallTrace.invariant_of_allowed keeps allowed (registry.prepared_new level)).2

-----------------------------------------------------------------------------------------
-- Finishing quests
-----------------------------------------------------------------------------------------

/-- A registered quest all of whose objectives events count. -/
def Countable (registry : QuestRegistry) (id : UInt32) : Prop :=
  ∃ quest,
    registry.get id = some quest ∧ ∀ objective ∈ quest.objectives, objective.counted = true

/-- No active quest can be completed by events. -/
def Resting (registry : QuestRegistry) (state : PlayerQuestState) : Prop :=
  ∀ active ∈ state.active, ¬ registry.Countable active.questId

/-- What playing on has made of a state: it has lost none of its completed quests. -/
structure PlayedTo (registry : QuestRegistry) (order : IterationOrder UInt32 QuestDef)
    (level : UInt32) (state after : PlayerQuestState) : Prop where
  plays : Relation.ReflTransGen (registry.Plays order level) state after
  prepared : registry.Prepared level after
  completed : state.completed ⊆ after.completed

theorem PlayedTo.refl (prepared : registry.Prepared level state)
    : registry.PlayedTo order level state state :=
  ⟨.refl, prepared, fun _ member => member⟩

theorem PlayedTo.trans {first second third : PlayerQuestState}
    (left : registry.PlayedTo order level first second)
    (right : registry.PlayedTo order level second third)
    : registry.PlayedTo order level first third :=
  ⟨left.plays.trans right.plays, right.prepared,
    fun _ member => right.completed (left.completed member)⟩

/-- One call, of which nothing is accepted that is not offered. -/
theorem Prepared.playedTo (prepared : registry.Prepared level state)
    (offered
      : ∀ id playerLevel tick, op = .acceptQuest id playerLevel tick →
          playerLevel = level ∧ registry.Offers order level state id)
    (within : op.WithinLevel level) (returns : registry.call op state = some (results, after))
    : registry.PlayedTo order level state after := by
  refine ⟨.single ⟨op, results, offered, returns⟩, prepared.call within returns, ?_⟩
  obtain ⟨-, -, completed⟩ := prepared.sound.call returns
  rw [completed]
  exact fun _ member => List.mem_append_left _ member

theorem not_acceptQuest_of_isEvent (isEvent : op.isEvent = true) (id playerLevel : UInt32)
    (tick : UInt64) : op ≠ .acceptQuest id playerLevel tick := by
  rintro rfl
  cases isEvent

/-- An active quest that events count is completed objective by objective, whatever else is
active, by induction on what is left of it.
-/
theorem played_to_complete {active : ActiveQuest} (prepared : registry.Prepared level state)
    (member : active ∈ state.active) (found : registry.get active.questId = some quest)
    (counted : ∀ objective ∈ quest.objectives, objective.counted = true)
    : ∃ after last,
        registry.PlayedTo order level state after
        ∧ after.active.map ActiveQuest.questId = state.active.map ActiveQuest.questId
        ∧ last ∈ after.active
        ∧ last.questId = active.questId
        ∧ last.isComplete = true := by
  generalize isLeft : active.left = left
  induction left using Nat.strong_induction_on generalizing state active with
  | h left ih =>
      by_cases complete : active.isComplete = true
      · exact ⟨state, active, .refl prepared, rfl, member, rfl, complete⟩
      · have notAll : active.isComplete = false := by simpa using complete
        obtain ⟨progress, isProgress, incomplete⟩ := List.all_eq_false.mp notAll
        obtain ⟨index, inRange, isHere⟩ := List.mem_iff_getElem.mp isProgress
        have hasProgress : active.objectives[index]? = some progress :=
          isHere ▸ List.getElem?_eq_getElem inRange
        have length : active.objectives.length = quest.objectives.length := by
          obtain ⟨definition, isQuest, length⟩ := prepared.sound.registered active member
          obtain rfl := Option.some.inj (found.symm.trans isQuest)
          exact length
        have isObjective := List.getElem?_eq_getElem (length ▸ inRange)
        obtain ⟨op, isUnit, isEvent, within⟩ :=
          exists_unitEvent (counted _ (List.mem_of_getElem? isObjective)) level
        obtain ⟨⟨results, next⟩, returns⟩ :=
          Option.isSome_iff_exists.mp (prepared.sound.returns op)
        have played : registry.PlayedTo order level state next :=
          prepared.playedTo
            (fun id playerLevel tick same =>
              absurd same (not_acceptQuest_of_isEvent isEvent id playerLevel tick))
            within returns
        obtain ⟨all, -, -⟩ := stepped_of_event isEvent returns
        obtain ⟨later, isLater, step⟩ := (exists_of_forall₂ all).2 active member
        obtain ⟨-, less⟩ :=
          ActiveQuest.left_stepped step found length (prepared.underway active member)
            isObjective hasProgress (by simpa using incomplete) isUnit
        obtain ⟨after, last, more, sameIds, isLast, sameId, isDone⟩ :=
          ih later.left (isLeft ▸ less) played.prepared isLater (step.questId ▸ found) rfl
        exact ⟨after, last, played.trans more, sameIds.trans (map_questId_of_stepped all), isLast,
          sameId.trans step.questId, isDone⟩

/-- An active quest that events count is finished, and no quest becomes active meanwhile. -/
theorem played_to_finish (prepared : registry.Prepared level state)
    (member : id ∈ state.active.map ActiveQuest.questId) (countable : registry.Countable id)
    : ∃ after,
        registry.PlayedTo order level state after
        ∧ (after.active.map ActiveQuest.questId).Sublist (state.active.map ActiveQuest.questId)
        ∧ id ∉ after.active.map ActiveQuest.questId
        ∧ id ∈ after.completed := by
  obtain ⟨active, isActive, rfl⟩ := List.mem_map.mp member
  obtain ⟨quest, found, counted⟩ := countable
  obtain ⟨middle, last, played, sameIds, isLast, sameId, isComplete⟩ :=
    @played_to_complete registry order level state quest active prepared isActive found counted
  have isDone : registry.done last = true := by
    rw [QuestRegistry.done, isComplete, sameId, found]
    rfl
  have checked : registry.call .checkCompletions middle = some _ :=
    registry.checkCompletions_eq middle
  have always : QuestCall.checkCompletions.WithinLevel level := trivial
  have swept := @Prepared.playedTo registry order level _ _ _ _ played.prepared
    (fun _ _ _ same => by cases same) always checked
  refine ⟨_, played.trans swept, ?_, ?_, ?_⟩
  · rw [← sameIds]
    exact List.filter_sublist.map _
  · intro still
    obtain ⟨other, isOther, same⟩ := List.mem_map.mp still
    obtain ⟨isOther, isOpen⟩ := List.mem_filter.mp isOther
    obtain rfl := played.prepared.sound.eq_of_questId isOther isLast (same.trans sameId.symm)
    rw [isDone] at isOpen
    cases isOpen
  · refine List.mem_append_right _ (List.mem_reverse.mpr (List.mem_map.mpr ⟨last, ?_, sameId⟩))
    exact List.mem_filter.mpr ⟨isLast, isDone⟩

/-- Everything that events can complete is completed, by induction on the number of active
quests.
-/
theorem played_to_rest (prepared : registry.Prepared level state)
    : ∃ after, registry.PlayedTo order level state after ∧ registry.Resting after := by
  generalize isCount : (state.active.map ActiveQuest.questId).length = count
  induction count using Nat.strong_induction_on generalizing state with
  | h count ih =>
      by_cases resting : registry.Resting state
      · exact ⟨state, .refl prepared, resting⟩
      · unfold Resting at resting
        push Not at resting
        obtain ⟨active, member, countable⟩ := resting
        have isId : active.questId ∈ state.active.map ActiveQuest.questId :=
          List.mem_map_of_mem member
        obtain ⟨middle, played, fewer, gone, -⟩ :=
          @played_to_finish registry order level _ state prepared isId countable
        have shorter : (middle.active.map ActiveQuest.questId).length < count := by
          refine Nat.lt_of_le_of_ne (isCount ▸ fewer.length_le) (fun same => gone ?_)
          rwa [fewer.eq_of_length (same.trans isCount.symm)]
        obtain ⟨after, more, rests⟩ := ih _ shorter played.prepared rfl
        exact ⟨after, played.trans more, rests⟩

-----------------------------------------------------------------------------------------
-- Few traps leave room
-----------------------------------------------------------------------------------------

/-- There are fewer traps than places. -/
def FewTraps (registry : QuestRegistry) (level : UInt32) : Prop :=
  ∀ ids : List UInt32, ids.Nodup → (∀ id ∈ ids, registry.Trap level id) →
    ids.length < PlayerQuestState.new.maxActive

/-- An active quest that cannot be completed is a trap. -/
theorem Prepared.trap (prepared : registry.Prepared level state) {active : ActiveQuest}
    (member : active ∈ state.active) (stays : ¬ registry.Countable active.questId)
    : registry.Trap level active.questId := by
  obtain ⟨quest, found, reached, prerequisites, -⟩ := prepared.warranted.active active member
  refine ⟨quest, found, reached, prerequisites, ?_⟩
  by_contra none
  push Not at none
  exact stays ⟨quest, found, fun objective isObjective => by
    simpa using none objective isObjective⟩

/-- Where everything else is completed, the traps leave room for a quest. -/
theorem Prepared.room (prepared : registry.Prepared level state)
    (resting : registry.Resting state) (few : registry.FewTraps level)
    : state.active.length < state.maxActive := by
  have bound := few _ prepared.sound.nodup (fun id member => by
    obtain ⟨active, isActive, rfl⟩ := List.mem_map.mp member
    exact prepared.trap isActive (resting active isActive))
  rwa [List.length_map, ← prepared.places] at bound

/-- With few traps, a quest whose prerequisites are completed is accepted and completed next. -/
theorem played_to_quest (keyed : ∀ id quest, registry.get id = some quest → quest.id = id)
    (few : registry.FewTraps level) (prepared : registry.Prepared level state)
    (resting : registry.Resting state) (found : registry.get id = some quest)
    (reached : quest.requiredLevel ≤ level)
    (counted : ∀ objective ∈ quest.objectives, objective.counted = true)
    (prerequisites : ∀ p ∈ quest.prerequisites, p ∈ state.completed)
    : ∃ after,
        registry.PlayedTo order level state after
        ∧ registry.Resting after
        ∧ id ∈ after.completed := by
  by_cases already : id ∈ state.completed
  · exact ⟨state, .refl prepared, resting, already⟩
  · have countable : registry.Countable id := ⟨quest, found, counted⟩
    have inactive (active : ActiveQuest) (member : active ∈ state.active)
        : active.questId ≠ id := by
      intro same
      exact resting active member (same ▸ countable)
    have offered : registry.Offers order level state id :=
      (offers_iff keyed).mpr ⟨quest, found, reached, inactive, fun _ => already, prerequisites⟩
    have accepted :=
      acceptQuest_of_acceptable
        ⟨found, prerequisites, inactive, fun _ => already, prepared.room resting few⟩ reached 0
    have returns := registry.call_acceptQuest id level 0 state
    rw [accepted] at returns
    have within : (QuestCall.acceptQuest id level 0).WithinLevel level := UInt32.le_refl level
    have playing := @Prepared.playedTo registry order level _ _ _ _ prepared
      (fun other playerLevel tick same => by cases same; exact ⟨rfl, offered⟩) within returns
    obtain ⟨after, played, fewer, gone, completed⟩ :=
      @played_to_finish registry order level id _ playing.prepared (by simp) countable
    refine ⟨after, playing.trans played, fun active member countable => ?_, completed⟩
    have isId : active.questId ∈ after.active.map ActiveQuest.questId :=
      List.mem_map_of_mem member
    have known := fewer.subset isId
    rw [List.map_append, List.mem_append] at known
    rcases known with old | new
    · obtain ⟨before, isBefore, same⟩ := List.mem_map.mp old
      exact resting before isBefore (same ▸ countable)
    · rw [List.map_singleton, List.mem_singleton] at new
      have same : active.questId = id := new
      exact gone (same ▸ isId)

/-- Quests that can each be completed next can be completed one after the other. -/
theorem played_to_all {ids : List UInt32}
    (each
      : ∀ id ∈ ids, ∀ state, registry.Prepared level state → registry.Resting state →
          ∃ after,
            registry.PlayedTo order level state after
            ∧ registry.Resting after
            ∧ id ∈ after.completed)
    (prepared : registry.Prepared level state) (resting : registry.Resting state)
    : ∃ after,
        registry.PlayedTo order level state after
        ∧ registry.Resting after
        ∧ ∀ id ∈ ids, id ∈ after.completed := by
  induction ids generalizing state with
  | nil => exact ⟨state, .refl prepared, resting, by simp⟩
  | cons first rest ih =>
      obtain ⟨here, others⟩ := List.forall_mem_cons.mp each
      obtain ⟨middle, played, rests, completes⟩ := here state prepared resting
      obtain ⟨after, more, restsAfter, completesRest⟩ := ih others played.prepared rests
      exact ⟨after, played.trans more, restsAfter,
        List.forall_mem_cons.mpr ⟨more.completed completes, completesRest⟩⟩

/-- With few traps, what is attainable is completed from every resting state, by induction on how
it is attained.
-/
theorem Attainable.played (attainable : registry.Attainable level id)
    (keyed : ∀ id quest, registry.get id = some quest → quest.id = id)
    (few : registry.FewTraps level)
    : ∀ state, registry.Prepared level state → registry.Resting state →
        ∃ after,
          registry.PlayedTo order level state after
          ∧ registry.Resting after
          ∧ id ∈ after.completed := by
  induction attainable with
  | intro found reached counted _ ih =>
      intro state prepared resting
      obtain ⟨middle, played, rests, prerequisites⟩ := played_to_all ih prepared resting
      obtain ⟨after, more, restsAfter, completes⟩ :=
        played_to_quest keyed few played.prepared rests found reached counted prerequisites
      exact ⟨after, played.trans more, restsAfter, completes⟩

/-- With few traps, there is no dead end. -/
theorem no_deadEnd (keyed : ∀ id quest, registry.get id = some quest → quest.id = id)
    (few : registry.FewTraps level) (order : IterationOrder UInt32 QuestDef)
    {ops : List QuestCall} (within : ∀ op ∈ ops, op.WithinLevel level)
    (attainable : registry.Attainable level id)
    : ∃ after,
        Relation.ReflTransGen (registry.Plays order level)
          (CallTrace.final registry.call ops .new) after
        ∧ id ∈ after.completed := by
  obtain ⟨middle, played, resting⟩ :=
    @played_to_rest registry order level _ (registry.prepared_final within)
  obtain ⟨after, more, -, completed⟩ :=
    @Attainable.played registry order level id attainable keyed few middle played.prepared resting
  exact ⟨after, (played.trans more).plays, completed⟩

-----------------------------------------------------------------------------------------
-- Five traps take all places
-----------------------------------------------------------------------------------------

/-- All places are taken, by quests with an objective that no event counts and that is open. -/
structure Jammed (registry : QuestRegistry) (state : PlayerQuestState) : Prop where
  full : state.maxActive ≤ state.active.length
  stuck
    : ∀ active ∈ state.active,
        ∃ (quest : QuestDef) (index : Nat) (objective : QuestObjective)
          (progress : ObjectiveProgress),
          registry.get active.questId = some quest
          ∧ quest.objectives[index]? = some objective
          ∧ objective.counted = false
          ∧ active.objectives[index]? = some progress
          ∧ progress.complete = false

/-- In a jammed state no call completes anything, and it stays so. -/
theorem Jammed.call (jammed : registry.Jammed state)
    (returns : registry.call op state = some (results, after))
    : registry.Jammed after ∧ after.completed = state.completed := by
  have event (isEvent : op.isEvent = true)
      : registry.Jammed after ∧ after.completed = state.completed := by
    obtain ⟨all, completed, maxActive⟩ := stepped_of_event isEvent returns
    refine ⟨⟨?_, fun next isNext => ?_⟩, completed⟩
    · rw [maxActive, ← all.length_eq]
      exact jammed.full
    · obtain ⟨active, isActive, step⟩ := (exists_of_forall₂ all).1 next isNext
      obtain ⟨quest, index, objective, progress, found, isObjective, uncounted, isProgress,
        incomplete⟩ := jammed.stuck active isActive
      refine ⟨quest, index, objective, progress, step.questId ▸ found, isObjective, uncounted, ?_,
        incomplete⟩
      rw [step.stepped quest found index objective isObjective, isProgress, Option.map_some,
        step_of_uncounted uncounted]
  cases op with
  | acceptQuest questId playerLevel tick =>
      have called := registry.call_acceptQuest questId playerLevel tick state
      obtain ⟨-, rfl⟩ := Prod.mk.inj (Option.some.inj (called.symm.trans returns))
      rcases registry.acceptQuest_cases questId playerLevel tick state
        with ⟨e, refused⟩ | ⟨quest, acceptable, -, -⟩
      · rw [refused]
        exact ⟨jammed, rfl⟩
      · exact absurd acceptable.room (Nat.not_lt.mpr jammed.full)
  | checkCompletions =>
      have checked := registry.checkCompletions_eq state
      obtain ⟨-, rfl⟩ := Prod.mk.inj (Option.some.inj (checked.symm.trans returns))
      have isOpen (active : ActiveQuest) (member : active ∈ state.active)
          : registry.done active = false := by
        obtain ⟨-, index, -, progress, -, -, -, isProgress, incomplete⟩ :=
          jammed.stuck active member
        refine Bool.and_eq_false_imp.mpr (fun complete => ?_)
        have := List.all_eq_true.mp complete progress (List.mem_of_getElem? isProgress)
        rw [incomplete] at this
        cases this
      have none : state.active.filter registry.done = [] :=
        List.filter_eq_nil_iff.mpr (fun active member => by simp [isOpen active member])
      have all : state.active.filter (fun quest => !registry.done quest) = state.active :=
        List.filter_eq_self.mpr (fun active member => by simp [isOpen active member])
      simp only [none, all, List.map_nil, List.reverse_nil, List.append_nil, and_true]
      exact jammed
  | onKill _ | onGather _ _ | onCraft _ _ => exact event rfl

/-- Nothing is ever completed after a jam, by induction on the calls. -/
theorem Jammed.final (jammed : registry.Jammed state) (ops : List QuestCall)
    : (CallTrace.final registry.call ops state).completed = state.completed := by
  have kept
      : registry.Jammed (CallTrace.final registry.call ops state)
        ∧ (CallTrace.final registry.call ops state).completed = state.completed :=
    CallTrace.final_invariant
      (fun later => registry.Jammed later ∧ later.completed = state.completed)
      (fun op before reply next held returns => by
        obtain ⟨still, same⟩ := held.1.call returns
        exact ⟨still, same.trans held.2⟩)
      ⟨jammed, rfl⟩
  exact kept.2

/-- A trap can never be completed. -/
theorem Trap.not_attainable (trap : registry.Trap level id)
    : ¬ registry.Attainable level id := by
  obtain ⟨quest, found, -, -, objective, member, uncounted⟩ := trap
  intro attainable
  cases attainable with
  | intro isQuest _ counted _ =>
      obtain rfl := Option.some.inj (found.symm.trans isQuest)
      have := counted objective member
      rw [uncounted] at this
      cases this

/-- Traps whose prerequisites are completed are accepted one after the other, as long as there is
room, by induction on those that are left.
-/
theorem leads_to_traps {ids : List UInt32} (prepared : registry.Prepared level state)
    (traps : ∀ id ∈ ids, registry.Trap level id)
    (completed
      : ∀ id ∈ ids, ∀ quest, registry.get id = some quest →
          ∀ p ∈ quest.prerequisites, p ∈ state.completed)
    (distinct : (state.active.map ActiveQuest.questId ++ ids).Nodup)
    (room : state.active.length + ids.length ≤ state.maxActive)
    : ∃ after,
        registry.Leads level state after
        ∧ after.active.map ActiveQuest.questId = state.active.map ActiveQuest.questId ++ ids := by
  induction ids generalizing state with
  | nil => exact ⟨state, .refl, (List.append_nil _).symm⟩
  | cons id rest ih =>
      obtain ⟨trap, others⟩ := List.forall_mem_cons.mp traps
      obtain ⟨here, elsewhere⟩ := List.forall_mem_cons.mp completed
      have uncompleted : id ∉ state.completed := fun member =>
        trap.not_attainable (prepared.warranted.completed id member)
      obtain ⟨quest, found, reached, -⟩ := trap
      have inactive (active : ActiveQuest) (member : active ∈ state.active)
          : active.questId ≠ id :=
        (List.nodup_append.mp distinct).2.2 _ (List.mem_map_of_mem member) id List.mem_cons_self
      rw [List.length_cons] at room
      have accepted :=
        acceptQuest_of_acceptable
          ⟨found, here quest found, inactive, fun _ => uncompleted, by omega⟩ reached 0
      have returns := registry.call_acceptQuest id level 0 state
      rw [accepted] at returns
      have within : (QuestCall.acceptQuest id level 0).WithinLevel level := UInt32.le_refl level
      obtain ⟨after, leads, ids⟩ := ih (prepared.call within returns) others elsewhere
        (by simpa using distinct) (by simp only [List.length_append, List.length_singleton]; omega)
      refine ⟨after, .head ⟨_, _, within, returns⟩ leads, ?_⟩
      rw [ids, List.map_append, List.append_assoc]
      rfl

/-- Traps that take all places jam. -/
theorem Prepared.jammed (prepared : registry.Prepared level state)
    (full : PlayerQuestState.new.maxActive ≤ state.active.length)
    (traps : ∀ active ∈ state.active, registry.Trap level active.questId)
    : registry.Jammed state := by
  refine ⟨prepared.places ▸ full, fun active member => ?_⟩
  obtain ⟨quest, found, -, -, objective, isObjective, uncounted⟩ := traps active member
  obtain ⟨definition, isQuest, -, -, length, uncompleted⟩ :=
    prepared.warranted.active active member
  obtain rfl := Option.some.inj (found.symm.trans isQuest)
  obtain ⟨index, inRange, isHere⟩ := List.mem_iff_getElem.mp isObjective
  have isObjective : quest.objectives[index]? = some objective :=
    isHere ▸ List.getElem?_eq_getElem inRange
  have isProgress := List.getElem?_eq_getElem (length ▸ inRange)
  exact ⟨quest, index, objective, _, found, isObjective, uncounted, isProgress,
    uncompleted index objective _ isObjective isProgress uncounted⟩

/-- Five traps make a dead end: their prerequisites are completed first, and then they are
accepted.
-/
theorem deadEnd_of_traps {ids : List UInt32} (nodup : ids.Nodup)
    (traps : ∀ id ∈ ids, registry.Trap level id)
    (many : PlayerQuestState.new.maxActive ≤ ids.length)
    : ∃ ops : List QuestCall,
        (∀ op ∈ ops, op.WithinLevel level)
        ∧ ∀ more,
          (CallTrace.final registry.call more (CallTrace.final registry.call ops .new)).completed
            = (CallTrace.final registry.call ops .new).completed := by
  let five := ids.take PlayerQuestState.new.maxActive
  have length : five.length = PlayerQuestState.new.maxActive := List.length_take_of_le many
  have areTraps (id : UInt32) (member : id ∈ five) : registry.Trap level id :=
    traps id (List.mem_of_mem_take member)
  let needed := five.flatMap (fun id => ((registry.get id).map QuestDef.prerequisites).getD [])
  have first (p : UInt32) (member : p ∈ needed) : registry.Attainable level p := by
    obtain ⟨id, isFive, isPrerequisite⟩ := List.mem_flatMap.mp member
    obtain ⟨quest, found, -, prerequisites, -⟩ := areTraps id isFive
    rw [found] at isPrerequisite
    exact prerequisites p isPrerequisite
  have idle : registry.Idle .new := ⟨registry.sound_new, rfl, by decide⟩
  obtain ⟨middle, leads, isIdle, -, completed⟩ :=
    leads_to_all (fun id member => (first id member).leads) idle
  have prepared : registry.Prepared level middle := by
    obtain ⟨opening, within, rfl⟩ := CallTrace.exists_final_of_reflTransGen leads
    exact prepared_final within
  obtain ⟨after, more, active⟩ :=
    leads_to_traps prepared areTraps
      (fun id member quest found p isPrerequisite =>
        completed p (List.mem_flatMap.mpr ⟨id, member, by rwa [found]⟩))
      (by rw [isIdle.active]; exact nodup.sublist (List.take_sublist _ _))
      (by rw [isIdle.active, prepared.places, length, List.length_nil, Nat.zero_add])
  obtain ⟨ops, within, rfl⟩ := CallTrace.exists_final_of_reflTransGen (leads.trans more)
  rw [isIdle.active, List.map_nil, List.nil_append] at active
  have jammed := (@prepared_final registry level _ within).jammed
    (by rw [← length, ← active, List.length_map])
    (fun quest member => areTraps _ (active ▸ List.mem_map_of_mem member))
  exact ⟨ops, within, jammed.final⟩

-----------------------------------------------------------------------------------------
-- Dead ends
-----------------------------------------------------------------------------------------

/-- The built-in quests have two traps at most. -/
theorem trap_defaultRegistry (trap : defaultRegistry.Trap level id) : id = 1 ∨ id = 11 := by
  obtain ⟨quest, found, -, -, objective, member, uncounted⟩ := trap
  obtain ⟨isBuiltIn, rfl⟩ := id_of_get_ofList found
  simp only [defaultQuests, List.mem_cons, List.not_mem_nil, or_false] at isBuiltIn
  rcases isBuiltIn with rfl | rfl | rfl | rfl | rfl | rfl | rfl | rfl | rfl
  all_goals simp_all [QuestObjective.counted]

/-- So the built-in quests have no dead end. -/
theorem fewTraps_defaultRegistry (level : UInt32) : defaultRegistry.FewTraps level := by
  intro ids nodup traps
  have two : ids ⊆ [1, 11] := fun id member => by
    simpa using trap_defaultRegistry (traps id member)
  have bound := nodup.length_le_of_subset two
  exact Nat.lt_of_le_of_lt bound (by decide)

/-- With fewer traps than places, everything attainable on a level can be completed from wherever
a run of a player on that level has led, by one who accepts only what is offered. With as many
traps as places, there is a run after which nothing is ever completed any more, on whatever level.
-/
theorem deadEnd_dichotomy (quests : List QuestDef) (order : IterationOrder UInt32 QuestDef)
    (level : UInt32)
    : ((ofList quests).FewTraps level →
        ∀ ops : List QuestCall, (∀ op ∈ ops, op.WithinLevel level) →
          ∀ id, (ofList quests).Attainable level id →
            ∃ after,
              Relation.ReflTransGen ((ofList quests).Plays order level)
                (CallTrace.final (ofList quests).call ops .new) after
              ∧ id ∈ after.completed)
      ∧ (¬ (ofList quests).FewTraps level →
        ∃ ops : List QuestCall,
          (∀ op ∈ ops, op.WithinLevel level)
          ∧ ∀ more,
            (CallTrace.final (ofList quests).call more
                (CallTrace.final (ofList quests).call ops .new)).completed
              = (CallTrace.final (ofList quests).call ops .new).completed) := by
  constructor
  · intro few ops within id attainable
    exact no_deadEnd (fun id quest found => (id_of_get_ofList found).2) few order within attainable
  · intro many
    unfold FewTraps at many
    push Not at many
    obtain ⟨ids, nodup, traps, many⟩ := many
    exact deadEnd_of_traps nodup traps many

end QuestRegistry

end VeloChain
