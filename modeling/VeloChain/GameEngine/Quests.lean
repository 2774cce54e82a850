import Mathlib.Data.List.Basic
import VeloChain.Lib.CallTrace
import VeloChain.Lib.HashMapOrder

/-! Quests: acceptance, progress and completion.
An index out of range panics, and such a call does not return. Counts and quantities are
32-bit words that wrap around. The location of an objective and the texts of a quest are left
out: no function here reads them.
-/

namespace VeloChain

/-- Quest objective types. -/
inductive QuestObjective
  | kill (npcType : String) (count : UInt32)
  | gather (itemId count : UInt32)
  | explore
  | deliver (itemId count : UInt32) (npcType : String)
  | talkTo (npcType : String)
  | craft (itemId count : UInt32)
  deriving DecidableEq

/-- Quest reward: items come with their quantities. -/
structure QuestReward where
  experience : UInt64
  items : List (UInt32 × UInt32)
  gold : UInt64
  deriving DecidableEq

/-- Quest definition (template). -/
structure QuestDef where
  id : UInt32
  objectives : List QuestObjective
  reward : QuestReward
  requiredLevel : UInt32
  prerequisites : List UInt32
  repeatable : Bool

/-- Progress on a single objective. -/
structure ObjectiveProgress where
  current : UInt32
  required : UInt32
  complete : Bool
  deriving DecidableEq

/-- Player's active quest state, progress in the order of the definition. -/
structure ActiveQuest where
  questId : UInt32
  objectives : List ObjectiveProgress
  acceptedTick : UInt64
  deriving DecidableEq

/-- Quest state for a player. -/
structure PlayerQuestState where
  active : List ActiveQuest
  completed : List UInt32
  maxActive : Nat
  deriving DecidableEq

/-- Quest error types. -/
inductive QuestError
  | notFound (questId : UInt32)
  | levelTooLow (required current : UInt32)
  | prerequisitesNotMet (missing : List UInt32)
  | alreadyActive (questId : UInt32)
  | alreadyCompleted (questId : UInt32)
  | tooManyActive
  | notActive (questId : UInt32)
  deriving DecidableEq

/-- Result of a quest operation. -/
inductive QuestResult
  | accepted (questId : UInt32)
  | progressUpdated (questId : UInt32) (objectiveIndex : Nat) (current required : UInt32)
  | completed (questId : UInt32) (reward : QuestReward)
  | error (e : QuestError)
  deriving DecidableEq

/-- Quest registry holding all quest definitions. -/
structure QuestRegistry where
  quests : FinMap UInt32 QuestDef

namespace QuestRegistry

def new : QuestRegistry := { quests := ∅ }

/-- Register a quest definition. -/
def register (registry : QuestRegistry) (quest : QuestDef) : QuestRegistry :=
  { quests := registry.quests.insert quest.id quest }

/-- The quests of the default registry. -/
def defaultQuests : List QuestDef :=
  [ { id := 1
      objectives := [.explore]
      reward := { experience := 50, items := [(1, 1)], gold := 10 }
      requiredLevel := 1
      prerequisites := []
      repeatable := false }
  , { id := 2
      objectives := [.gather 31 5]
      reward := { experience := 80, items := [(20, 2)], gold := 20 }
      requiredLevel := 1
      prerequisites := []
      repeatable := true }
  , { id := 3
      objectives := [.kill "wolf" 3]
      reward := { experience := 150, items := [(2, 1)], gold := 50 }
      requiredLevel := 2
      prerequisites := [1]
      repeatable := false }
  , { id := 10
      objectives := [.gather 30 10]
      reward := { experience := 200, items := [(11, 1)], gold := 100 }
      requiredLevel := 3
      prerequisites := []
      repeatable := true }
  , { id := 11
      objectives := [.talkTo "merchant", .deliver 31 5 "merchant"]
      reward := { experience := 120, items := [(20, 3)], gold := 30 }
      requiredLevel := 2
      prerequisites := []
      repeatable := false }
  , { id := 12
      objectives := [.craft 2 1]
      reward := { experience := 250, items := [(30, 10)], gold := 75 }
      requiredLevel := 3
      prerequisites := [10]
      repeatable := false }
  , { id := 20
      objectives := [.kill "dragon" 1]
      reward := { experience := 1000, items := [(32, 3), (21, 5)], gold := 500 }
      requiredLevel := 10
      prerequisites := [3]
      repeatable := false }
  , { id := 21
      objectives := [.kill "skeleton" 10]
      reward := { experience := 500, items := [(3, 1)], gold := 200 }
      requiredLevel := 5
      prerequisites := [3]
      repeatable := true }
  , { id := 22
      objectives := [.craft 4 1]
      reward := { experience := 2000, items := [], gold := 1000 }
      requiredLevel := 15
      prerequisites := [12, 20]
      repeatable := false } ]

/-- Create default quest registry. -/
def defaultRegistry : QuestRegistry := defaultQuests.foldl register new

end QuestRegistry

/-- How often an objective has to be met. -/
def QuestObjective.required : QuestObjective → UInt32
  | .kill _ count => count
  | .gather _ count => count
  | .explore => 1
  | .deliver _ count _ => count
  | .talkTo _ => 1
  | .craft _ count => count

namespace ObjectiveProgress

/-- One kill more. -/
def recordKill (progress : ObjectiveProgress) : ObjectiveProgress :=
  let current := progress.current + 1
  if progress.required ≤ current then { progress with current, complete := true }
  else { progress with current }

/-- Some items more, up to the required number. -/
def recordItems (quantity : UInt32) (progress : ObjectiveProgress) : ObjectiveProgress :=
  let current := progress.current + quantity
  if progress.required ≤ current then
    { progress with current := progress.required, complete := true }
  else { progress with current }

end ObjectiveProgress

namespace ActiveQuest

/-- Check if all objectives are complete. -/
def isComplete (quest : ActiveQuest) : Bool := quest.objectives.all ObjectiveProgress.complete

/-- Record progress on the incomplete objectives that an event concerns, from an index on. -/
def advanceFrom (concerns : QuestObjective → Bool)
    (record : ObjectiveProgress → ObjectiveProgress)
    : Nat → List QuestObjective → ActiveQuest → Option (List QuestResult × ActiveQuest)
  | _, [], active => some ([], active)
  | index, objective :: rest, active =>
      if concerns objective then
        match active.objectives[index]? with
        | none => none
        | some progress =>
            if progress.complete then advanceFrom concerns record (index + 1) rest active
            else do
              let next := record progress
              let objectives := active.objectives.set index next
              let (results, active) ←
                advanceFrom concerns record (index + 1) rest { active with objectives }
              some
                (.progressUpdated active.questId index next.current next.required :: results,
                  active)
      else advanceFrom concerns record (index + 1) rest active

end ActiveQuest

namespace PlayerQuestState

def new : PlayerQuestState := { active := [], completed := [], maxActive := 5 }

/-- Check if a quest is already active. -/
def isActive (questId : UInt32) (state : PlayerQuestState) : Bool :=
  state.active.any (fun quest => quest.questId = questId)

/-- Check if a quest is completed. -/
def isCompleted (questId : UInt32) (state : PlayerQuestState) : Bool :=
  state.completed.contains questId

/-- Remove a completed quest from the active ones. -/
def complete (state : PlayerQuestState) (index : Nat) : Option PlayerQuestState :=
  match state.active[index]? with
  | none => none
  | some quest =>
      some
        { state with
          active := state.active.eraseIdx index
          completed := state.completed ++ [quest.questId] }

end PlayerQuestState

namespace QuestRegistry

variable (registry : QuestRegistry)

/-- Get a quest by ID. -/
def get (id : UInt32) : Option QuestDef := registry.quests.lookup id

/-- Accept a quest for a player. -/
def acceptQuest (questId playerLevel : UInt32) (currentTick : UInt64)
    (state : PlayerQuestState) : QuestResult × PlayerQuestState :=
  match registry.get questId with
  | none => (.error (.notFound questId), state)
  | some quest =>
      let missing := quest.prerequisites.filter (fun p => !state.isCompleted p)
      if playerLevel < quest.requiredLevel then
        (.error (.levelTooLow quest.requiredLevel playerLevel), state)
      else if missing ≠ [] then (.error (.prerequisitesNotMet missing), state)
      else if state.isActive questId then (.error (.alreadyActive questId), state)
      else if !quest.repeatable && state.isCompleted questId then
        (.error (.alreadyCompleted questId), state)
      else if state.maxActive ≤ state.active.length then (.error .tooManyActive, state)
      else
        let objectives :=
          quest.objectives.map
            (fun objective =>
              { current := 0, required := objective.required, complete := false })
        (.accepted questId,
          { state with
            active := state.active ++ [{ questId, objectives, acceptedTick := currentTick }] })

/-- Record an event in every active quest that is registered. -/
def advance (concerns : QuestObjective → Bool) (record : ObjectiveProgress → ObjectiveProgress)
    : List ActiveQuest → Option (List QuestResult × List ActiveQuest)
  | [] => some ([], [])
  | active :: rest =>
      match registry.get active.questId with
      | none => do
          let (results, others) ← advance concerns record rest
          some (results, active :: others)
      | some quest => do
          let (own, next) ← active.advanceFrom concerns record 0 quest.objectives
          let (results, others) ← advance concerns record rest
          some (own ++ results, next :: others)

/-- Update quest progress for an event. -/
def onEvent (concerns : QuestObjective → Bool)
    (record : ObjectiveProgress → ObjectiveProgress) (state : PlayerQuestState)
    : Option (List QuestResult × PlayerQuestState) :=
  (registry.advance concerns record state.active).map
    (fun out => (out.1, { state with active := out.2 }))

/-- Update quest progress for a kill event. -/
def onKill (npcType : String) (state : PlayerQuestState)
    : Option (List QuestResult × PlayerQuestState) :=
  registry.onEvent
    (fun
      | .kill target _ => target = npcType
      | _ => false)
    ObjectiveProgress.recordKill state

/-- Update quest progress for a gather event. -/
def onGather (itemId quantity : UInt32) (state : PlayerQuestState)
    : Option (List QuestResult × PlayerQuestState) :=
  registry.onEvent
    (fun
      | .gather item _ => item = itemId
      | _ => false)
    (ObjectiveProgress.recordItems quantity) state

/-- Update quest progress for a craft event. -/
def onCraft (itemId quantity : UInt32) (state : PlayerQuestState)
    : Option (List QuestResult × PlayerQuestState) :=
  registry.onEvent
    (fun
      | .craft item _ => item = itemId
      | _ => false)
    (ObjectiveProgress.recordItems quantity) state

/-- The complete and registered quests with their indices, from an index on. -/
def completions : Nat → List ActiveQuest → List (Nat × QuestResult)
  | _, [] => []
  | index, active :: rest =>
      if active.isComplete then
        match registry.get active.questId with
        | none => completions (index + 1) rest
        | some quest =>
            (index, .completed active.questId quest.reward) :: completions (index + 1) rest
      else completions (index + 1) rest

/-- Check and complete any quests that have all objectives done, the last one first so that
the indices stay valid.
-/
def checkCompletions (state : PlayerQuestState)
    : Option (List QuestResult × PlayerQuestState) := do
  let completions := registry.completions 0 state.active
  let state ← (completions.map Prod.fst).reverse.foldlM PlayerQuestState.complete state
  some (completions.map Prod.snd, state)

end QuestRegistry

/-- The operations on the quest state of a player. -/
inductive QuestCall
  | acceptQuest (questId playerLevel : UInt32) (currentTick : UInt64)
  | onKill (npcType : String)
  | onGather (itemId quantity : UInt32)
  | onCraft (itemId quantity : UInt32)
  | checkCompletions
  deriving DecidableEq

/-- One operation, with its results. -/
def QuestRegistry.call (registry : QuestRegistry) (op : QuestCall) (state : PlayerQuestState)
    : Option (List QuestResult × PlayerQuestState) :=
  match op with
  | .acceptQuest questId playerLevel currentTick =>
      let (result, state) := registry.acceptQuest questId playerLevel currentTick state
      some ([result], state)
  | .onKill npcType => registry.onKill npcType state
  | .onGather itemId quantity => registry.onGather itemId quantity state
  | .onCraft itemId quantity => registry.onCraft itemId quantity state
  | .checkCompletions => registry.checkCompletions state

end VeloChain
