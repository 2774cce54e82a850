import Mathlib.Algebra.GroupWithZero.Nat
import Mathlib.Data.List.DropRight
import VeloChain.GameEngine.QuestLaws

/-! The counts of active quests against the events since their acceptance.
What has happened is counted in natural numbers, over the calls made so far.
-/

namespace VeloChain

-----------------------------------------------------------------------------------------
-- What an event does to each objective
-----------------------------------------------------------------------------------------

/-- An event as one objective sees it: recorded when it concerns it and more is to be done. -/
def ObjectiveProgress.advance (concerns : QuestObjective → Bool)
    (record : ObjectiveProgress → ObjectiveProgress) (objective : QuestObjective)
    (progress : ObjectiveProgress) : ObjectiveProgress :=
  if concerns objective && !progress.complete then record progress else progress

namespace ActiveQuest

variable {concerns : QuestObjective → Bool} {record : ObjectiveProgress → ObjectiveProgress}

/-- From an index on, each of these objectives has seen the event; what precedes it is kept. -/
def AdvancedFrom (concerns : QuestObjective → Bool)
    (record : ObjectiveProgress → ObjectiveProgress) (index : Nat)
    (objectives : List QuestObjective) (before after : List ObjectiveProgress) : Prop :=
  (∀ earlier < index, after[earlier]? = before[earlier]?)
  ∧ ∀ (later : Nat) objective, objectives[later]? = some objective →
      after[index + later]? = before[index + later]?.map (.advance concerns record objective)

/-- The rest is advanced in a list that differs at the index only. -/
theorem AdvancedFrom.cons {index : Nat} {first : QuestObjective} {rest : List QuestObjective}
    {before middle after : List ObjectiveProgress}
    (advanced : AdvancedFrom concerns record (index + 1) rest middle after)
    (own : middle[index]? = before[index]?.map (.advance concerns record first))
    (same : ∀ other, other ≠ index → middle[other]? = before[other]?)
    : AdvancedFrom concerns record index (first :: rest) before after := by
  obtain ⟨kept, advanced⟩ := advanced
  refine ⟨fun earlier below => ?_, fun later objective found => ?_⟩
  · rw [kept earlier (by omega), same earlier (by omega)]
  · cases later with
    | zero =>
        obtain rfl := Option.some.inj found
        exact (kept index (by omega)).trans own
    | succ later =>
        have := advanced later objective found
        rwa [same _ (by omega), Nat.add_assoc, Nat.add_comm 1 later] at this

/-- An event advances the objectives from its index on, by induction on them. -/
theorem advancedFrom_of_advanceFrom {objectives : List QuestObjective} {index : Nat}
    {active after : ActiveQuest} {results : List QuestResult}
    (returns : active.advanceFrom concerns record index objectives = some (results, after))
    : AdvancedFrom concerns record index objectives active.objectives after.objectives := by
  induction objectives generalizing index active results with
  | nil =>
      obtain ⟨-, rfl⟩ := Prod.mk.inj (Option.some.inj returns)
      exact ⟨fun _ _ => rfl, fun later objective found => by simp at found⟩
  | cons first rest ih =>
      unfold advanceFrom at returns
      split at returns
      next concerned =>
        cases found : active.objectives[index]? with
        | none => simp [found] at returns
        | some progress =>
            simp only [found] at returns
            split at returns
            next complete =>
              refine (ih returns).cons ?_ (fun _ _ => rfl)
              rw [found, Option.map_some, ObjectiveProgress.advance, complete]
              simp
            next incomplete =>
              obtain ⟨⟨later, last⟩, advanced, same⟩ := Option.bind_eq_some_iff.mp returns
              obtain ⟨-, rfl⟩ := Prod.mk.inj (Option.some.inj same)
              refine (ih advanced).cons ?_ (fun other different => ?_)
              · have inRange := (List.getElem?_eq_some_iff.mp found).1
                rw [found, Option.map_some, ObjectiveProgress.advance, concerned]
                simp [incomplete, inRange]
              · exact List.getElem?_set_ne different.symm
      next other =>
        refine (ih returns).cons ?_ (fun _ _ => rfl)
        cases active.objectives[index]? with
        | none => rfl
        | some progress => simp [ObjectiveProgress.advance, other]

end ActiveQuest

namespace ObjectiveProgress

/-- An operation as one objective sees it. -/
def step (op : QuestCall) (objective : QuestObjective) (progress : ObjectiveProgress)
    : ObjectiveProgress :=
  match objective, op with
  | .kill target _, .onKill npcType =>
      if target = npcType ∧ progress.complete = false then progress.recordKill else progress
  | .gather item _, .onGather itemId quantity | .craft item _, .onCraft itemId quantity =>
      if item = itemId ∧ progress.complete = false then progress.recordItems quantity
      else progress
  | _, _ => progress

end ObjectiveProgress

/-- Kills, gatherings and craftings. -/
def QuestCall.isEvent : QuestCall → Bool
  | .onKill _ | .onGather _ _ | .onCraft _ _ => true
  | .acceptQuest _ _ _ | .checkCompletions => false

/-- An operation has taken every objective of a quest a step on. -/
structure ActiveQuest.Stepped (registry : QuestRegistry) (op : QuestCall)
    (before after : ActiveQuest) : Prop where
  questId : after.questId = before.questId
  length : after.objectives.length = before.objectives.length
  stepped
    : ∀ quest, registry.get before.questId = some quest →
        ∀ (index : Nat) objective, quest.objectives[index]? = some objective →
          after.objectives[index]? = before.objectives[index]?.map (.step op objective)

namespace QuestRegistry

variable {registry : QuestRegistry} {concerns : QuestObjective → Bool}
  {record : ObjectiveProgress → ObjectiveProgress} {state after : PlayerQuestState}
  {results : List QuestResult} {op : QuestCall}

/-- An event takes every active quest a step on. -/
theorem onEvent_stepped
    (isStep : ∀ objective, ObjectiveProgress.advance concerns record objective = .step op objective)
    (returns : registry.onEvent concerns record state = some (results, after))
    : List.Forall₂ (ActiveQuest.Stepped registry op) state.active after.active := by
  have advances {active later : List ActiveQuest} {results : List QuestResult}
      (returns : registry.advance concerns record active = some (results, later))
      : List.Forall₂ (ActiveQuest.Stepped registry op) active later := by
    induction active generalizing later results with
    | nil =>
        obtain ⟨-, rfl⟩ := Prod.mk.inj (Option.some.inj returns)
        exact .nil
    | cons first rest ih =>
        unfold advance at returns
        split at returns
        next unknown =>
          obtain ⟨⟨others, moved⟩, advanced, same⟩ := Option.bind_eq_some_iff.mp returns
          obtain ⟨-, rfl⟩ := Prod.mk.inj (Option.some.inj same)
          refine .cons ⟨rfl, rfl, fun quest found => ?_⟩ (ih advanced)
          simp [unknown] at found
        next definition isQuest =>
          obtain ⟨⟨own, next⟩, here, there⟩ := Option.bind_eq_some_iff.mp returns
          obtain ⟨⟨others, moved⟩, advanced, same⟩ := Option.bind_eq_some_iff.mp there
          obtain ⟨-, rfl⟩ := Prod.mk.inj (Option.some.inj same)
          obtain ⟨moved, -⟩ := ActiveQuest.advanceFrom_advances here
          refine
            .cons ⟨moved.questId, moved.length, fun quest found index objective isHere => ?_⟩
              (ih advanced)
          obtain rfl := Option.some.inj (isQuest.symm.trans found)
          have := (ActiveQuest.advancedFrom_of_advanceFrom here).2 index objective isHere
          rwa [Nat.zero_add, isStep] at this
  obtain ⟨⟨own, active⟩, advanced, same⟩ := Option.map_eq_some_iff.mp returns
  obtain ⟨-, rfl⟩ := Prod.mk.inj same
  exact advances advanced

theorem stepped_of_event (isEvent : op.isEvent = true)
    (returns : registry.call op state = some (results, after))
    : List.Forall₂ (ActiveQuest.Stepped registry op) state.active after.active
      ∧ after.completed = state.completed
      ∧ after.maxActive = state.maxActive := by
  cases op with
  | acceptQuest _ _ _ | checkCompletions => simp [QuestCall.isEvent] at isEvent
  | onKill _ | onGather _ _ | onCraft _ _ =>
      obtain ⟨-, completed, maxActive, -⟩ := onEvent_advances returns
      refine ⟨onEvent_stepped (fun objective => ?_) returns, completed, maxActive⟩
      funext progress
      cases objective <;> simp [ObjectiveProgress.advance, ObjectiveProgress.step]

end QuestRegistry

-----------------------------------------------------------------------------------------
-- One objective
-----------------------------------------------------------------------------------------

/-- The objectives that events count. -/
def QuestObjective.counted : QuestObjective → Bool
  | .kill _ _ | .gather _ _ | .craft _ _ => true
  | .explore | .deliver _ _ _ | .talkTo _ => false

/-- How much an event brings for an objective. -/
def QuestObjective.amount : QuestObjective → QuestCall → Nat
  | .kill target _, .onKill npcType => if target = npcType then 1 else 0
  | .gather item _, .onGather itemId quantity => if item = itemId then quantity.toNat else 0
  | .craft item _, .onCraft itemId quantity => if item = itemId then quantity.toNat else 0
  | _, _ => 0

namespace ObjectiveProgress

/-- The count is the total up to the requirement, and reaching it is what completes. -/
structure Counts (objective : QuestObjective) (total : Nat) (progress : ObjectiveProgress)
    : Prop where
  required : progress.required = objective.required
  current : progress.current.toNat = min objective.required.toNat total
  complete
    : 1 ≤ objective.required →
        (progress.complete = true ↔ objective.required.toNat ≤ total)

/-- An event can be counted: a kill when one is required, a quantity when it fits on top of the
count.
-/
def Fits (op : QuestCall) (objective : QuestObjective) (progress : ObjectiveProgress) : Prop :=
  progress.complete = false →
    match objective, op with
    | .kill target count, .onKill npcType => target = npcType → 1 ≤ count
    | .gather item _, .onGather itemId quantity | .craft item _, .onCraft itemId quantity =>
        item = itemId → progress.current.toNat + quantity.toNat < 2 ^ 32
    | _, _ => True

variable {op : QuestCall} {objective : QuestObjective} {total : Nat}
  {progress : ObjectiveProgress}

/-- What is complete has its required count and keeps it. -/
theorem Counts.of_complete (counts : progress.Counts objective total)
    (complete : progress.complete = true) (amount : Nat)
    : progress.Counts objective (total + amount) := by
  obtain ⟨required, current, completes⟩ := counts
  by_cases positive : 1 ≤ objective.required
  · have reached := (completes positive).mp complete
    exact ⟨required, by omega, fun _ => ⟨fun _ => by omega, fun _ => complete⟩⟩
  · have none := UInt32.le_iff_toNat_le.not.mp positive
    rw [UInt32.toNat_one] at none
    exact ⟨required, by omega, fun positive' => absurd positive' positive⟩

/-- What is not complete has less than is required. -/
theorem Counts.of_incomplete (counts : progress.Counts objective total)
    (incomplete : progress.complete = false)
    : (1 ≤ objective.required ∧ total < objective.required.toNat
        ∧ progress.current.toNat = total)
      ∨ (objective.required.toNat = 0 ∧ progress.current.toNat = 0) := by
  obtain ⟨required, current, completes⟩ := counts
  by_cases positive : 1 ≤ objective.required
  · have less := (completes positive).not.mp (by simp [incomplete])
    exact Or.inl ⟨positive, by omega, by omega⟩
  · have none := UInt32.le_iff_toNat_le.not.mp positive
    rw [UInt32.toNat_one] at none
    exact Or.inr ⟨by omega, by omega⟩

theorem counts_of_reached (required : progress.required = objective.required)
    (current : progress.current.toNat = objective.required.toNat)
    (complete : progress.complete = true) (reached : objective.required.toNat ≤ total)
    : progress.Counts objective total :=
  ⟨required, by omega, fun _ => ⟨fun _ => reached, fun _ => complete⟩⟩

theorem counts_of_below (required : progress.required = objective.required)
    (current : progress.current.toNat = total) (incomplete : progress.complete = false)
    (below : total < objective.required.toNat)
    : progress.Counts objective total := by
  refine ⟨required, by omega, fun _ => ⟨fun complete => ?_, fun reached => by omega⟩⟩
  simp [incomplete] at complete

/-- A quantity is counted exactly when it fits on top of the count. -/
theorem Counts.recordItems_iff (counts : progress.Counts objective total)
    (incomplete : progress.complete = false) (quantity : UInt32)
    : (progress.recordItems quantity).Counts objective (total + quantity.toNat)
      ↔ progress.current.toNat + quantity.toNat < 2 ^ 32 := by
  have small := quantity.toNat_lt
  have bound := objective.required.toNat_lt
  have isRequired := counts.required
  have sum := UInt32.toNat_add progress.current quantity
  rcases counts.of_incomplete incomplete with ⟨positive, less, isTotal⟩ | ⟨zero, none⟩
  · constructor
    · rintro ⟨-, -, completes⟩
      by_contra wraps
      have wrapped : (progress.current + quantity).toNat < objective.required.toNat := by omega
      have complete := (completes positive).mpr (by omega)
      rw [recordItems, isRequired, if_neg (by rw [UInt32.le_iff_toNat_le]; omega)] at complete
      simp [incomplete] at complete
    · intro fits
      rw [Nat.mod_eq_of_lt fits] at sum
      rw [recordItems, isRequired]
      split
      next reached =>
        have := UInt32.le_iff_toNat_le.mp reached
        exact counts_of_reached rfl rfl rfl (by omega)
      next below =>
        have := UInt32.le_iff_toNat_le.not.mp below
        exact counts_of_below rfl (by simp only; omega) incomplete (by omega)
  · refine ⟨fun _ => by omega, fun fits => ?_⟩
    rw [Nat.mod_eq_of_lt fits] at sum
    rw [recordItems, isRequired, if_pos (by rw [UInt32.le_iff_toNat_le]; omega)]
    exact counts_of_reached rfl rfl rfl (by omega)

/-- A kill is counted exactly when one is required: its count is not cut off. -/
theorem Counts.recordKill_iff (counts : progress.Counts objective total)
    (incomplete : progress.complete = false)
    : progress.recordKill.Counts objective (total + 1) ↔ 1 ≤ objective.required := by
  have bound := objective.required.toNat_lt
  have isRequired := counts.required
  have sum := UInt32.toNat_add progress.current 1
  rw [UInt32.toNat_one] at sum
  rcases counts.of_incomplete incomplete with ⟨positive, less, isTotal⟩ | ⟨zero, none⟩
  · refine ⟨fun _ => positive, fun _ => ?_⟩
    rw [Nat.mod_eq_of_lt (by omega)] at sum
    rw [recordKill, isRequired]
    split
    next reached =>
      have := UInt32.le_iff_toNat_le.mp reached
      exact counts_of_reached rfl (by simp only; omega) rfl (by omega)
    next below =>
      have := UInt32.le_iff_toNat_le.not.mp below
      exact counts_of_below rfl (by simp only; omega) incomplete (by omega)
  · constructor
    · rintro ⟨-, current, -⟩
      rw [recordKill, isRequired] at current
      rw [if_pos (by rw [UInt32.le_iff_toNat_le]; omega)] at current
      simp only at current
      omega
    · intro positive
      have := UInt32.le_iff_toNat_le.mp positive
      rw [UInt32.toNat_one] at this
      omega

/-- An operation is counted exactly when it fits. -/
theorem Counts.step_iff (counts : progress.Counts objective total)
    : (progress.step op objective).Counts objective (total + objective.amount op)
      ↔ progress.Fits op objective := by
  have idle : progress.complete = true ∨ objective.amount op = 0 →
      progress.Counts objective (total + objective.amount op) := by
    rintro (complete | none)
    · exact counts.of_complete complete _
    · rwa [none, Nat.add_zero]
  unfold step Fits
  cases incomplete : progress.complete with
  | true =>
      simp only [Bool.true_eq_false, and_false, if_false, false_imp_iff, iff_true]
      split <;> exact idle (Or.inl incomplete)
  | false =>
      simp only [and_true, true_imp_iff]
      split
      next target count npcType =>
        by_cases same : target = npcType
        · rw [if_pos same, QuestObjective.amount, if_pos same]
          simpa [same, QuestObjective.required] using counts.recordKill_iff incomplete
        · rw [if_neg same]
          simpa [same] using idle (Or.inr (if_neg same))
      next item count itemId quantity =>
        by_cases same : item = itemId
        · rw [if_pos same, QuestObjective.amount, if_pos same]
          simpa [same] using counts.recordItems_iff incomplete quantity
        · rw [if_neg same]
          simpa [same] using idle (Or.inr (if_neg same))
      next item count itemId quantity =>
        by_cases same : item = itemId
        · rw [if_pos same, QuestObjective.amount, if_pos same]
          simpa [same] using counts.recordItems_iff incomplete quantity
        · rw [if_neg same]
          simpa [same] using idle (Or.inr (if_neg same))
      next notKill notGather notCraft =>
        have none : objective.amount op = 0 := by
          unfold QuestObjective.amount
          split
          next target count npcType => exact absurd rfl (notKill target count npcType rfl)
          next item count itemId quantity =>
            exact absurd rfl (notGather item count itemId quantity rfl)
          next item count itemId quantity =>
            exact absurd rfl (notCraft item count itemId quantity rfl)
          next => rfl
        simpa using idle (Or.inr none)

end ObjectiveProgress

-----------------------------------------------------------------------------------------
-- One call
-----------------------------------------------------------------------------------------

/-- A call on the quest state of a player that has returned. -/
abbrev QuestTurn := ReturnedCall PlayerQuestState QuestCall (List QuestResult)

/-- The call has accepted a quest. -/
def QuestTurn.accepts (questId : UInt32) (turn : QuestTurn) : Bool :=
  match turn.op with
  | .acceptQuest _ _ _ => turn.reply = [.accepted questId]
  | _ => false

/-- What was called since a quest was accepted last. -/
def sinceAcceptance (questId : UInt32) (past : List QuestTurn) : List QuestCall :=
  (past.rtakeWhile (fun turn => !turn.accepts questId)).map ReturnedCall.op

/-- How much the events since the acceptance of a quest have brought for an objective of it. -/
def eventTotal (questId : UInt32) (objective : QuestObjective) (past : List QuestTurn) : Nat :=
  ((sinceAcceptance questId past).map objective.amount).sum

namespace QuestRegistry

/-- Every counted objective of every active quest has the count of the events since then. -/
def Exact (registry : QuestRegistry) (past : List QuestTurn) (state : PlayerQuestState) : Prop :=
  ∀ active ∈ state.active, ∀ quest, registry.get active.questId = some quest →
    ∀ (index : Nat) objective progress, quest.objectives[index]? = some objective →
      active.objectives[index]? = some progress → objective.counted = true →
      progress.Counts objective (eventTotal active.questId objective past)

/-- Every objective of every active quest can count the call. -/
def Fits (registry : QuestRegistry) (turn : QuestTurn) : Prop :=
  ∀ active ∈ turn.before.active, ∀ quest, registry.get active.questId = some quest →
    ∀ (index : Nat) objective progress, quest.objectives[index]? = some objective →
      active.objectives[index]? = some progress → progress.Fits turn.op objective

variable {registry : QuestRegistry} {past : List QuestTurn} {turn : QuestTurn}

theorem eventTotal_concat {questId : UInt32} (other : turn.accepts questId = false)
    (objective : QuestObjective)
    : eventTotal questId objective (past ++ [turn])
      = eventTotal questId objective past + objective.amount turn.op := by
  simp [eventTotal, sinceAcceptance, other]

theorem eventTotal_accepted {questId : UInt32} (accepted : turn.accepts questId = true)
    (objective : QuestObjective) : eventTotal questId objective (past ++ [turn]) = 0 := by
  simp [eventTotal, sinceAcceptance, accepted]

/-- An event advances each objective by a step of it. -/
theorem exact_event_iff (exact : registry.Exact past turn.before)
    (isEvent : turn.op.isEvent = true)
    (returns : registry.call turn.op turn.before = some (turn.reply, turn.after))
    : registry.Exact (past ++ [turn]) turn.after ↔ registry.Fits turn := by
  have other (questId : UInt32) : turn.accepts questId = false := by
    cases isOp : turn.op with
    | acceptQuest _ _ _ => simp [QuestCall.isEvent, isOp] at isEvent
    | onKill _ | onGather _ _ | onCraft _ _ | checkCompletions => simp [QuestTurn.accepts, isOp]
  obtain ⟨backward, forward⟩ := exists_of_forall₂ (stepped_of_event isEvent returns).1
  constructor
  · intro exactAfter active member quest found index objective progress isObjective isProgress
    obtain ⟨next, isNext, step⟩ := forward active member
    have stepped := step.stepped quest found index objective isObjective
    rw [isProgress, Option.map_some] at stepped
    by_cases counted : objective.counted = true
    · have after :=
        exactAfter next isNext quest (step.questId ▸ found) index objective _ isObjective
          stepped counted
      rw [step.questId, eventTotal_concat (other _)] at after
      exact (exact active member quest found index objective progress isObjective isProgress
        counted).step_iff.mp after
    · intro incomplete
      cases objective with
      | kill _ _ | gather _ _ | craft _ _ => simp [QuestObjective.counted] at counted
      | explore | deliver _ _ _ | talkTo _ => trivial
  · intro fits next isNext quest found index objective progress isObjective isProgress counted
    obtain ⟨active, member, step⟩ := backward next isNext
    rw [step.questId] at found ⊢
    have stepped := step.stepped quest found index objective isObjective
    rw [isProgress] at stepped
    obtain ⟨before, isBefore, rfl⟩ := Option.map_eq_some_iff.mp stepped.symm
    rw [eventTotal_concat (other _)]
    exact (exact active member quest found index objective before isObjective isBefore
      counted).step_iff.mpr (fits active member quest found index objective before isObjective
        isBefore)

/-- Where quests only leave, the counts stay. -/
theorem exact_of_subset (exact : registry.Exact past turn.before)
    (kept
      : ∀ active ∈ turn.after.active,
          active ∈ turn.before.active ∧ turn.accepts active.questId = false)
    (silent : ∀ objective : QuestObjective, objective.amount turn.op = 0)
    : registry.Exact (past ++ [turn]) turn.after := by
  intro active member quest found index objective progress isObjective isProgress counted
  obtain ⟨isBefore, other⟩ := kept active member
  rw [eventTotal_concat other, silent, Nat.add_zero]
  exact exact active isBefore quest found index objective progress isObjective isProgress counted

theorem fits_of_silent
    (silent
      : ∀ (objective : QuestObjective) (progress : ObjectiveProgress),
          progress.Fits turn.op objective)
    : registry.Fits turn :=
  fun _ _ _ _ _ objective progress _ _ => silent objective progress

/-- An accepted quest has counted nothing yet, and the others are not touched. -/
theorem exact_acceptQuest (exact : registry.Exact past turn.before) {questId playerLevel : UInt32}
    {currentTick : UInt64} (isOp : turn.op = .acceptQuest questId playerLevel currentTick)
    (returns : registry.call turn.op turn.before = some (turn.reply, turn.after))
    : registry.Exact (past ++ [turn]) turn.after := by
  have silent (objective : QuestObjective) : objective.amount turn.op = 0 := by
    rw [isOp]
    cases objective <;> rfl
  rw [isOp] at returns
  have isReply
      : [(registry.acceptQuest questId playerLevel currentTick turn.before).1] = turn.reply :=
    (Prod.mk.inj (Option.some.inj returns)).1
  have isAfter
      : (registry.acceptQuest questId playerLevel currentTick turn.before).2 = turn.after :=
    (Prod.mk.inj (Option.some.inj returns)).2
  rcases registry.acceptQuest_cases questId playerLevel currentTick turn.before
    with ⟨e, refused⟩ | ⟨definition, acceptable, -, accepted⟩
  · rw [refused] at isReply isAfter
    refine exact_of_subset exact (fun active member => ⟨?_, ?_⟩) silent
    · rwa [← isAfter] at member
    · simp [QuestTurn.accepts, isOp, ← isReply]
  · rw [accepted] at isReply isAfter
    have accepts (other : UInt32) : turn.accepts other = decide (questId = other) := by
      simp [QuestTurn.accepts, isOp, ← isReply]
    intro active member quest found index objective progress isObjective isProgress counted
    rw [← isAfter] at member
    rcases List.mem_append.mp member with old | new
    · have other : turn.accepts active.questId = false := by
        rw [accepts, decide_eq_false_iff_not]
        exact fun same => acceptable.inactive active old same.symm
      rw [eventTotal_concat other, silent, Nat.add_zero]
      exact exact active old quest found index objective progress isObjective isProgress counted
    · obtain rfl := List.mem_singleton.mp new
      obtain rfl := Option.some.inj (acceptable.found.symm.trans found)
      rw [eventTotal_accepted (by rw [accepts, decide_eq_true rfl])]
      simp only [List.getElem?_map, isObjective, Option.map_some] at isProgress
      obtain rfl := Option.some.inj isProgress
      refine ⟨rfl, (Nat.min_zero _).symm, fun positive => ?_⟩
      have := UInt32.le_iff_toNat_le.mp positive
      rw [UInt32.toNat_one] at this
      simp only [Bool.false_eq_true, false_iff]
      omega

/-- A call keeps the counts exactly when every objective can count it. -/
theorem exact_call_iff (exact : registry.Exact past turn.before)
    (returns : registry.call turn.op turn.before = some (turn.reply, turn.after))
    : registry.Exact (past ++ [turn]) turn.after ↔ registry.Fits turn := by
  cases isOp : turn.op with
  | acceptQuest questId playerLevel currentTick =>
      refine iff_of_true (exact_acceptQuest exact isOp returns)
        (fits_of_silent fun objective progress _ => ?_)
      rw [isOp]
      cases objective <;> trivial
  | onKill _ | onGather _ _ | onCraft _ _ =>
      exact exact_event_iff exact (by rw [isOp]; rfl) returns
  | checkCompletions =>
      have removed := returns
      rw [isOp] at removed
      have isAfter := (Prod.mk.inj (Option.some.inj
        ((registry.checkCompletions_eq turn.before).symm.trans removed))).2
      refine iff_of_true (exact_of_subset exact (fun active member => ⟨?_, ?_⟩) fun objective => ?_)
        (fits_of_silent fun objective progress _ => ?_)
      · rw [← isAfter] at member
        exact (List.mem_filter.mp member).1
      · simp [QuestTurn.accepts, isOp]
      · rw [isOp]
        cases objective <;> rfl
      · rw [isOp]
        cases objective <;> trivial

-----------------------------------------------------------------------------------------
-- Runs
-----------------------------------------------------------------------------------------

/-- After every beginning of a run, every kill, gather and craft objective of every active quest
has the count of the events since its acceptance up to the requirement, and is complete exactly
when they reach it, if and only if at every call no count that is not complete overflows and no
kill is counted of which none is required.
-/
theorem questProgress_iff (registry : QuestRegistry) (ops : List QuestCall)
    : (∀ earlier later, ops = earlier ++ later →
          registry.Exact (CallTrace.calls registry.call earlier .new)
            (CallTrace.final registry.call earlier .new))
      ↔ ∀ turn ∈ CallTrace.calls registry.call ops .new, registry.Fits turn := by
  have none : registry.Exact [] .new := fun active member => by
    simp [PlayerQuestState.new] at member
  exact CallTrace.past_kept_iff registry.Exact
    (fun past turn exact returns => exact_call_iff exact returns) none

/-- Wood is gathered for the village: 3 pieces, and then 2 ^ 32 - 1. -/
def woodOverflow : List QuestCall :=
  [.acceptQuest 2 1 0, .onGather 31 3, .onGather 31 4294967295]

/-- The count of the wood is 2, and 5 are required. -/
theorem questProgress_fails_on_overflow
    : ¬ ∀ (registry : QuestRegistry) (ops : List QuestCall),
        registry.Exact (CallTrace.calls registry.call ops .new)
          (CallTrace.final registry.call ops .new) := by
  intro claimed
  have counts :=
    claimed defaultRegistry woodOverflow
      { questId := 2, objectives := [{ current := 2, required := 5, complete := false }],
        acceptedTick := 0 }
      (by decide +kernel)
      { id := 2
        objectives := [.gather 31 5]
        reward := { experience := 80, items := [(20, 2)], gold := 20 }
        requiredLevel := 1
        prerequisites := []
        repeatable := true }
      rfl 0 (.gather 31 5) { current := 2, required := 5, complete := false } rfl rfl rfl
  have total
      : eventTotal 2 (.gather 31 5)
          (CallTrace.calls defaultRegistry.call woodOverflow .new)
        = 4294967298 := by
    decide +kernel
  have current := counts.current
  rw [total] at current
  exact absurd current (by decide)

end QuestRegistry

end VeloChain
