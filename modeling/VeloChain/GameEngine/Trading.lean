import VeloChain.Lib.CallTrace
import VeloChain.Lib.HashMapOrder

/-! Player-to-player trading.
Both players confirm before items change hands. Sessions are never removed, so trade ids count
them and are natural numbers; ticks, quantities and gold are fixed-width words.
-/

namespace VeloChain

/-- State of a trade session. -/
inductive TradeState
  | proposed
  | negotiating
  | initiatorConfirmed
  | acceptorConfirmed
  | completed
  | cancelled
  | expired
  deriving DecidableEq

/-- A trade offer from one player: items with their quantities. -/
structure TradeOffer where
  items : List (UInt32 × UInt32)
  gold : UInt64
  confirmed : Bool
  deriving DecidableEq

/-- A trade session between two players. -/
structure TradeSession where
  id : Nat
  initiator : String
  acceptor : String
  state : TradeState
  initiatorOffer : TradeOffer
  acceptorOffer : TradeOffer
  createdTick : UInt64
  timeoutTicks : UInt64
  deriving DecidableEq

/-- Trade error types. -/
inductive TradeError
  | notFound (id : Nat)
  | notParticipant
  | invalidState (message : String)
  | insufficientItems (itemId required held : UInt32)
  | expired
  | alreadyTrading
  deriving DecidableEq

/-- Result of a trade operation. -/
inductive TradeResult
  | created (id : Nat)
  | accepted (id : Nat)
  | itemAdded
  | confirmed
  | executed (tradeId : Nat) (initiatorReceived acceptorReceived : List (UInt32 × UInt32))
  | cancelled (id : Nat)
  | error (e : TradeError)
  deriving DecidableEq

/-- All sessions by id, and the active trade of each player. -/
structure TradeManager where
  trades : FinMap Nat TradeSession
  nextId : Nat
  activeTrades : FinMap String Nat
  defaultTimeout : UInt64

/-- Items can be added and the trade be confirmed. -/
def TradeState.Open (state : TradeState) : Prop :=
  state = .negotiating ∨ state = .initiatorConfirmed ∨ state = .acceptorConfirmed

instance (state : TradeState) : Decidable state.Open := inferInstanceAs (Decidable (_ ∨ _))

/-- The trade has ended. -/
def TradeState.Final (state : TradeState) : Prop :=
  state = .completed ∨ state = .cancelled ∨ state = .expired

instance (state : TradeState) : Decidable state.Final := inferInstanceAs (Decidable (_ ∨ _))

namespace TradeOffer

def empty : TradeOffer := { items := [], gold := 0, confirmed := false }

/-- Add an item to a list of items, or increment its quantity. -/
def addTo (itemId quantity : UInt32) : List (UInt32 × UInt32) → List (UInt32 × UInt32)
  | [] => [(itemId, quantity)]
  | (id, held) :: rest =>
      if id = itemId then (id, held + quantity) :: rest
      else (id, held) :: addTo itemId quantity rest

def add (itemId quantity : UInt32) (offer : TradeOffer) : TradeOffer :=
  { offer with items := addTo itemId quantity offer.items }

def withConfirmed (confirmed : Bool) (offer : TradeOffer) : TradeOffer :=
  { offer with confirmed }

end TradeOffer

namespace TradeSession

/-- The player takes part in the trade. -/
def HasParticipant (trade : TradeSession) (player : String) : Prop :=
  trade.initiator = player ∨ trade.acceptor = player

instance (trade : TradeSession) (player : String) : Decidable (trade.HasParticipant player) :=
  inferInstanceAs (Decidable (_ ∨ _))

def withState (state : TradeState) (trade : TradeSession) : TradeSession :=
  { trade with state }

/-- Confirmations are reset when an offer changes. -/
def reopened (trade : TradeSession) : TradeSession :=
  { trade with
    initiatorOffer := trade.initiatorOffer.withConfirmed false
    acceptorOffer := trade.acceptorOffer.withConfirmed false
    state := .negotiating }

/-- The trade is due to expire. -/
def Due (currentTick : UInt64) (trade : TradeSession) : Prop :=
  ¬ trade.state.Final ∧ trade.createdTick + trade.timeoutTicks < currentTick

instance (currentTick : UInt64) (trade : TradeSession) : Decidable (trade.Due currentTick) :=
  inferInstanceAs (Decidable (_ ∧ _))

end TradeSession

namespace TradeManager

def new : TradeManager :=
  { trades := ∅, nextId := 1, activeTrades := ∅, defaultTimeout := 600 }

/-- Write a session back. -/
def setTrade (tradeId : Nat) (trade : TradeSession) (manager : TradeManager) : TradeManager :=
  { manager with trades := manager.trades.insert tradeId trade }

/-- Neither participant is trading any more. -/
def release (trade : TradeSession) (manager : TradeManager) : TradeManager :=
  { manager with
    activeTrades := (manager.activeTrades.erase trade.initiator).erase trade.acceptor }

/-- Propose a trade to another player. -/
def proposeTrade (initiator acceptor : String) (currentTick : UInt64)
    (manager : TradeManager) : TradeResult × TradeManager :=
  if initiator ∈ manager.activeTrades then (.error .alreadyTrading, manager)
  else if acceptor ∈ manager.activeTrades then (.error .alreadyTrading, manager)
  else
    let id := manager.nextId
    (.created id,
      { manager with
        nextId := id + 1
        trades :=
          manager.trades.insert id
            { id
              initiator
              acceptor
              state := .proposed
              initiatorOffer := .empty
              acceptorOffer := .empty
              createdTick := currentTick
              timeoutTicks := manager.defaultTimeout }
        activeTrades := manager.activeTrades.insert initiator id })

/-- Accept a trade proposal. -/
def acceptTrade (tradeId : Nat) (player : String) (manager : TradeManager)
    : TradeResult × TradeManager :=
  match manager.trades.lookup tradeId with
  | none => (.error (.notFound tradeId), manager)
  | some trade =>
      if trade.acceptor ≠ player then (.error .notParticipant, manager)
      else if trade.state ≠ .proposed then
        (.error (.invalidState "Trade is not in Proposed state"), manager)
      else
        (.accepted tradeId,
          { manager.setTrade tradeId (trade.withState .negotiating) with
            activeTrades := manager.activeTrades.insert player tradeId })

/-- Add an item to a player's trade offer. -/
def addItem (tradeId : Nat) (player : String) (itemId quantity : UInt32)
    (manager : TradeManager) : TradeResult × TradeManager :=
  match manager.trades.lookup tradeId with
  | none => (.error (.notFound tradeId), manager)
  | some trade =>
      if ¬ trade.state.Open then
        (.error (.invalidState "Trade is not in a modifiable state"), manager)
      else if trade.initiator = player then
        (.itemAdded,
          manager.setTrade tradeId
            { trade.reopened with
              initiatorOffer := trade.reopened.initiatorOffer.add itemId quantity })
      else if trade.acceptor = player then
        (.itemAdded,
          manager.setTrade tradeId
            { trade.reopened with
              acceptorOffer := trade.reopened.acceptorOffer.add itemId quantity })
      else (.error .notParticipant, manager)

/-- Write a confirmed trade back; a completed one is reported and its players released. -/
def settle (tradeId : Nat) (trade : TradeSession) (manager : TradeManager)
    : TradeResult × TradeManager :=
  let stored := manager.setTrade tradeId trade
  if trade.state = .completed then
    (.executed trade.id trade.acceptorOffer.items trade.initiatorOffer.items,
      stored.release trade)
  else (.confirmed, stored)

/-- Confirm a trade offer. -/
def confirmTrade (tradeId : Nat) (player : String) (manager : TradeManager)
    : TradeResult × TradeManager :=
  match manager.trades.lookup tradeId with
  | none => (.error (.notFound tradeId), manager)
  | some trade =>
      if ¬ trade.state.Open then
        (.error (.invalidState "Trade cannot be confirmed in current state"), manager)
      else if trade.initiator = player then
        manager.settle tradeId
          { trade with
            initiatorOffer := trade.initiatorOffer.withConfirmed true
            state :=
              if trade.acceptorOffer.confirmed then .completed else .initiatorConfirmed }
      else if trade.acceptor = player then
        manager.settle tradeId
          { trade with
            acceptorOffer := trade.acceptorOffer.withConfirmed true
            state :=
              if trade.initiatorOffer.confirmed then .completed else .acceptorConfirmed }
      else (.error .notParticipant, manager)

/-- Cancel a trade. -/
def cancelTrade (tradeId : Nat) (player : String) (manager : TradeManager)
    : TradeResult × TradeManager :=
  match manager.trades.lookup tradeId with
  | none => (.error (.notFound tradeId), manager)
  | some trade =>
      if ¬ trade.HasParticipant player then (.error .notParticipant, manager)
      else
        (.cancelled tradeId,
          (manager.setTrade tradeId (trade.withState .cancelled)).release trade)

/-- Expire one trade. -/
def expireTrade (manager : TradeManager) (tradeId : Nat) : TradeManager :=
  match manager.trades.lookup tradeId with
  | none => manager
  | some trade => (manager.setTrade tradeId (trade.withState .expired)).release trade

/-- The ids of the trades that are due, in the order of a walk. -/
def expiredIds (order : IterationOrder Nat TradeSession) (currentTick : UInt64)
    (manager : TradeManager) : List Nat :=
  (order.keys manager.trades).filter
    (fun id => (manager.trades.lookup id).any (fun trade => trade.Due currentTick))

/-- Expire old trades. Called each tick. -/
def tickExpirations (order : IterationOrder Nat TradeSession) (currentTick : UInt64)
    (manager : TradeManager) : TradeManager :=
  (manager.expiredIds order currentTick).foldl expireTrade manager

end TradeManager

/-- What players and the tick do to a trade manager. The timeout is a public field, which may
be set at any time; an expiry walks the sessions in some order.
-/
inductive TradeCall
  | proposeTrade (initiator acceptor : String) (currentTick : UInt64)
  | acceptTrade (tradeId : Nat) (player : String)
  | addItem (tradeId : Nat) (player : String) (itemId quantity : UInt32)
  | confirmTrade (tradeId : Nat) (player : String)
  | cancelTrade (tradeId : Nat) (player : String)
  | tickExpirations (order : IterationOrder Nat TradeSession) (currentTick : UInt64)
  | setDefaultTimeout (ticks : UInt64)

/-- The trade an operation is about. -/
def TradeCall.tradeId : TradeCall → Option Nat
  | .acceptTrade tradeId _ => some tradeId
  | .addItem tradeId _ _ _ => some tradeId
  | .confirmTrade tradeId _ => some tradeId
  | .cancelTrade tradeId _ => some tradeId
  | .proposeTrade _ _ _ => none
  | .tickExpirations _ _ => none
  | .setDefaultTimeout _ => none

namespace TradeManager

/-- One operation, with its result if it has one. -/
def perform (op : TradeCall) (manager : TradeManager) : Option TradeResult × TradeManager :=
  match op with
  | .proposeTrade initiator acceptor currentTick =>
      (manager.proposeTrade initiator acceptor currentTick).map some id
  | .acceptTrade tradeId player => (manager.acceptTrade tradeId player).map some id
  | .addItem tradeId player itemId quantity =>
      (manager.addItem tradeId player itemId quantity).map some id
  | .confirmTrade tradeId player => (manager.confirmTrade tradeId player).map some id
  | .cancelTrade tradeId player => (manager.cancelTrade tradeId player).map some id
  | .tickExpirations order currentTick => (none, manager.tickExpirations order currentTick)
  | .setDefaultTimeout ticks => (none, { manager with defaultTimeout := ticks })

/-- Every operation returns. -/
def call (op : TradeCall) (manager : TradeManager) : Option (Option TradeResult × TradeManager) :=
  some (manager.perform op)

end TradeManager

-----------------------------------------------------------------------------------------
-- What an operation does to its trade
-----------------------------------------------------------------------------------------

namespace TradeSession

/-- The trade after a participant has changed the own offer. -/
def withItem (player : String) (itemId quantity : UInt32) (trade : TradeSession)
    : TradeSession :=
  if trade.initiator = player then
    { trade.reopened with
      initiatorOffer := trade.reopened.initiatorOffer.add itemId quantity }
  else
    { trade.reopened with
      acceptorOffer := trade.reopened.acceptorOffer.add itemId quantity }

/-- The trade after a participant has confirmed it. -/
def withConfirmation (player : String) (trade : TradeSession) : TradeSession :=
  if trade.initiator = player then
    { trade with
      initiatorOffer := trade.initiatorOffer.withConfirmed true
      state := if trade.acceptorOffer.confirmed then .completed else .initiatorConfirmed }
  else
    { trade with
      acceptorOffer := trade.acceptorOffer.withConfirmed true
      state := if trade.initiatorOffer.confirmed then .completed else .acceptorConfirmed }

/-- The trade is still the one between these players, under this id. -/
structure SameParties (before after : TradeSession) : Prop where
  id : after.id = before.id
  initiator : after.initiator = before.initiator
  acceptor : after.acceptor = before.acceptor

theorem SameParties.hasParticipant {before after : TradeSession}
    (same : before.SameParties after) (player : String)
    : after.HasParticipant player ↔ before.HasParticipant player := by
  unfold HasParticipant
  rw [same.initiator, same.acceptor]

theorem sameParties_withState (trade : TradeSession) (state : TradeState)
    : trade.SameParties (trade.withState state) := ⟨rfl, rfl, rfl⟩

theorem sameParties_withItem (trade : TradeSession) (player : String)
    (itemId quantity : UInt32)
    : trade.SameParties (trade.withItem player itemId quantity) := by
  unfold withItem
  split <;> exact ⟨rfl, rfl, rfl⟩

theorem sameParties_withConfirmation (trade : TradeSession) (player : String)
    : trade.SameParties (trade.withConfirmation player) := by
  unfold withConfirmation
  split <;> exact ⟨rfl, rfl, rfl⟩

theorem state_withItem (trade : TradeSession) (player : String) (itemId quantity : UInt32)
    : (trade.withItem player itemId quantity).state = .negotiating := by
  unfold withItem
  split <;> rfl

theorem items_withConfirmation (trade : TradeSession) (player : String)
    : (trade.withConfirmation player).initiatorOffer.items = trade.initiatorOffer.items
      ∧ (trade.withConfirmation player).acceptorOffer.items = trade.acceptorOffer.items := by
  unfold withConfirmation
  split <;> exact ⟨rfl, rfl⟩

/-- A confirmed trade is completed or still open. -/
theorem state_withConfirmation (trade : TradeSession) (player : String)
    : (trade.withConfirmation player).state = .completed
      ∨ (trade.withConfirmation player).state.Open := by
  unfold withConfirmation
  split
  next =>
    cases trade.acceptorOffer.confirmed with
    | false => exact Or.inr (Or.inr (Or.inl rfl))
    | true => exact Or.inl rfl
  next =>
    cases trade.initiatorOffer.confirmed with
    | false => exact Or.inr (Or.inr (Or.inr rfl))
    | true => exact Or.inl rfl

end TradeSession

theorem TradeState.Open.not_final {state : TradeState} (isOpen : state.Open)
    : ¬ state.Final := by
  rcases isOpen with rfl | rfl | rfl <;> decide

namespace TradeManager

/-- The session an accepted proposal opens. -/
def proposedTrade (initiator acceptor : String) (currentTick : UInt64)
    (manager : TradeManager) : TradeSession :=
  { id := manager.nextId
    initiator
    acceptor
    state := .proposed
    initiatorOffer := .empty
    acceptorOffer := .empty
    createdTick := currentTick
    timeoutTicks := manager.defaultTimeout }

/-- The checks of the operation fail. -/
def Refuses (manager : TradeManager) : TradeCall → Prop
  | .proposeTrade initiator acceptor _ =>
      initiator ∈ manager.activeTrades ∨ acceptor ∈ manager.activeTrades
  | .acceptTrade tradeId player =>
      ∀ trade, manager.trades.lookup tradeId = some trade → trade.acceptor = player →
        trade.state ≠ .proposed
  | .addItem tradeId player _ _ =>
      ∀ trade, manager.trades.lookup tradeId = some trade → trade.state.Open →
        ¬ trade.HasParticipant player
  | .confirmTrade tradeId player =>
      ∀ trade, manager.trades.lookup tradeId = some trade → trade.state.Open →
        ¬ trade.HasParticipant player
  | .cancelTrade tradeId player =>
      ∀ trade, manager.trades.lookup tradeId = some trade → ¬ trade.HasParticipant player
  | _ => False

/-- Everything an operation can do: with what it has checked, its result and what it leaves. -/
inductive Step (manager : TradeManager) : TradeCall → Option TradeResult → TradeManager → Prop
  | rejected {op : TradeCall} {e : TradeError} (refused : manager.Refuses op)
    : manager.Step op (some (.error e)) manager
  | proposed {initiator acceptor : String} {currentTick : UInt64}
    (free : initiator ∉ manager.activeTrades) (freeToo : acceptor ∉ manager.activeTrades)
    : manager.Step (.proposeTrade initiator acceptor currentTick)
        (some (.created manager.nextId))
        { manager with
          nextId := manager.nextId + 1
          trades :=
            manager.trades.insert manager.nextId
              (manager.proposedTrade initiator acceptor currentTick)
          activeTrades := manager.activeTrades.insert initiator manager.nextId }
  | accepted {tradeId : Nat} {trade : TradeSession}
    (found : manager.trades.lookup tradeId = some trade) (isProposed : trade.state = .proposed)
    : manager.Step (.acceptTrade tradeId trade.acceptor) (some (.accepted tradeId))
        { manager.setTrade tradeId (trade.withState .negotiating) with
          activeTrades := manager.activeTrades.insert trade.acceptor tradeId }
  | itemAdded {tradeId : Nat} {player : String} {itemId quantity : UInt32}
    {trade : TradeSession} (found : manager.trades.lookup tradeId = some trade)
    (isOpen : trade.state.Open) (participant : trade.HasParticipant player)
    : manager.Step (.addItem tradeId player itemId quantity) (some .itemAdded)
        (manager.setTrade tradeId (trade.withItem player itemId quantity))
  | confirmed {tradeId : Nat} {player : String} {trade : TradeSession}
    (found : manager.trades.lookup tradeId = some trade) (isOpen : trade.state.Open)
    (participant : trade.HasParticipant player)
    (waits : (trade.withConfirmation player).state.Open)
    : manager.Step (.confirmTrade tradeId player) (some .confirmed)
        (manager.setTrade tradeId (trade.withConfirmation player))
  | completed {tradeId : Nat} {player : String} {trade : TradeSession}
    (found : manager.trades.lookup tradeId = some trade) (isOpen : trade.state.Open)
    (participant : trade.HasParticipant player)
    (both : (trade.withConfirmation player).state = .completed)
    : manager.Step (.confirmTrade tradeId player)
        (some (.executed trade.id trade.acceptorOffer.items trade.initiatorOffer.items))
        ((manager.setTrade tradeId (trade.withConfirmation player)).release trade)
  | cancelled {tradeId : Nat} {player : String} {trade : TradeSession}
    (found : manager.trades.lookup tradeId = some trade)
    (participant : trade.HasParticipant player)
    : manager.Step (.cancelTrade tradeId player) (some (.cancelled tradeId))
        ((manager.setTrade tradeId (trade.withState .cancelled)).release trade)
  | expired {order : IterationOrder Nat TradeSession} {currentTick : UInt64}
    : manager.Step (.tickExpirations order currentTick) none
        (manager.tickExpirations order currentTick)
  | timeoutSet {ticks : UInt64}
    : manager.Step (.setDefaultTimeout ticks) none { manager with defaultTimeout := ticks }

variable {manager : TradeManager}

theorem release_sameParties {before after : TradeSession} (same : before.SameParties after)
    (manager : TradeManager) : manager.release after = manager.release before := by
  unfold release
  rw [same.initiator, same.acceptor]

/-- The two ways a confirmation can end. -/
theorem step_of_settle {tradeId : Nat} {player : String} {trade : TradeSession}
    (found : manager.trades.lookup tradeId = some trade) (isOpen : trade.state.Open)
    (participant : trade.HasParticipant player)
    : manager.Step (.confirmTrade tradeId player)
        (some (manager.settle tradeId (trade.withConfirmation player)).1)
        (manager.settle tradeId (trade.withConfirmation player)).2 := by
  have same := trade.sameParties_withConfirmation player
  obtain ⟨initiatorItems, acceptorItems⟩ := trade.items_withConfirmation player
  unfold settle
  rcases trade.state_withConfirmation player with both | waits
  · rw [if_pos both, release_sameParties same, same.id, initiatorItems, acceptorItems]
    exact .completed found isOpen participant both
  · have notBoth : (trade.withConfirmation player).state ≠ .completed :=
      fun both => waits.not_final (Or.inl both)
    rw [if_neg notBoth]
    exact .confirmed found isOpen participant waits

theorem step_proposeTrade (initiator acceptor : String) (currentTick : UInt64)
    : manager.Step (.proposeTrade initiator acceptor currentTick)
        (some (manager.proposeTrade initiator acceptor currentTick).1)
        (manager.proposeTrade initiator acceptor currentTick).2 := by
  unfold proposeTrade
  split
  next busy => exact .rejected (Or.inl busy)
  next free =>
    split
    next busy => exact .rejected (Or.inr busy)
    next freeToo => exact .proposed free freeToo

theorem trade_eq {tradeId : Nat} {trade other : TradeSession}
    (found : manager.trades.lookup tradeId = some trade)
    (stored : manager.trades.lookup tradeId = some other)
    : trade = other :=
  Option.some.inj (found.symm.trans stored)

theorem step_acceptTrade (tradeId : Nat) (player : String)
    : manager.Step (.acceptTrade tradeId player)
        (some (manager.acceptTrade tradeId player).1)
        (manager.acceptTrade tradeId player).2 := by
  unfold acceptTrade
  cases found : manager.trades.lookup tradeId with
  | none => exact .rejected (fun trade stored => by simp [found] at stored)
  | some trade =>
      simp only
      split
      next other =>
        apply Step.rejected
        intro _ stored isAcceptor
        exact absurd (trade_eq found stored ▸ isAcceptor) other
      next invited =>
        split
        next settled => exact .rejected fun _ stored _ => trade_eq found stored ▸ settled
        next isProposed =>
          obtain rfl := not_not.mp invited
          exact .accepted found (not_not.mp isProposed)

theorem step_addItem (tradeId : Nat) (player : String) (itemId quantity : UInt32)
    : manager.Step (.addItem tradeId player itemId quantity)
        (some (manager.addItem tradeId player itemId quantity).1)
        (manager.addItem tradeId player itemId quantity).2 := by
  unfold addItem
  cases found : manager.trades.lookup tradeId with
  | none => exact .rejected (fun trade stored => by simp [found] at stored)
  | some trade =>
      simp only
      split
      next closed =>
        apply Step.rejected
        intro _ stored isOpen
        exact absurd (trade_eq found stored ▸ isOpen) closed
      next isOpen =>
        have step (participant : trade.HasParticipant player)
            : manager.Step (.addItem tradeId player itemId quantity) (some .itemAdded)
                (manager.setTrade tradeId (trade.withItem player itemId quantity)) :=
          .itemAdded found (not_not.mp isOpen) participant
        split
        next isInitiator =>
          rw [TradeSession.withItem, if_pos isInitiator] at step
          exact step (Or.inl isInitiator)
        next notInitiator =>
          rw [TradeSession.withItem, if_neg notInitiator] at step
          split
          next isAcceptor => exact step (Or.inr isAcceptor)
          next notAcceptor =>
            apply Step.rejected
            intro _ stored _
            exact trade_eq found stored ▸ not_or.mpr ⟨notInitiator, notAcceptor⟩

theorem step_confirmTrade (tradeId : Nat) (player : String)
    : manager.Step (.confirmTrade tradeId player)
        (some (manager.confirmTrade tradeId player).1)
        (manager.confirmTrade tradeId player).2 := by
  unfold confirmTrade
  cases found : manager.trades.lookup tradeId with
  | none => exact .rejected (fun trade stored => by simp [found] at stored)
  | some trade =>
      simp only
      split
      next closed =>
        apply Step.rejected
        intro _ stored isOpen
        exact absurd (trade_eq found stored ▸ isOpen) closed
      next isOpen =>
        have step (participant : trade.HasParticipant player) :=
          step_of_settle found (not_not.mp isOpen) participant
        split
        next isInitiator =>
          rw [TradeSession.withConfirmation, if_pos isInitiator] at step
          exact step (Or.inl isInitiator)
        next notInitiator =>
          rw [TradeSession.withConfirmation, if_neg notInitiator] at step
          split
          next isAcceptor => exact step (Or.inr isAcceptor)
          next notAcceptor =>
            apply Step.rejected
            intro _ stored _
            exact trade_eq found stored ▸ not_or.mpr ⟨notInitiator, notAcceptor⟩

theorem step_cancelTrade (tradeId : Nat) (player : String)
    : manager.Step (.cancelTrade tradeId player)
        (some (manager.cancelTrade tradeId player).1)
        (manager.cancelTrade tradeId player).2 := by
  unfold cancelTrade
  cases found : manager.trades.lookup tradeId with
  | none => exact .rejected (fun trade stored => by simp [found] at stored)
  | some trade =>
      simp only
      split
      next outsider =>
        apply Step.rejected
        intro _ stored
        exact Option.some.inj (found.symm.trans stored) ▸ outsider
      next participant => exact .cancelled found (not_not.mp participant)

/-- Every operation is one of the steps. -/
theorem step_perform (op : TradeCall) (manager : TradeManager)
    : manager.Step op (manager.perform op).1 (manager.perform op).2 := by
  cases op with
  | proposeTrade initiator acceptor currentTick =>
      exact step_proposeTrade initiator acceptor currentTick
  | acceptTrade tradeId player => exact step_acceptTrade tradeId player
  | addItem tradeId player itemId quantity => exact step_addItem tradeId player itemId quantity
  | confirmTrade tradeId player => exact step_confirmTrade tradeId player
  | cancelTrade tradeId player => exact step_cancelTrade tradeId player
  | tickExpirations order currentTick => exact .expired
  | setDefaultTimeout ticks => exact .timeoutSet

/-- A call of a run is one of the steps. -/
theorem step_of_call {op : TradeCall} {reply : Option TradeResult} {after : TradeManager}
    (returns : manager.call op = some (reply, after)) : manager.Step op reply after := by
  have step := step_perform op manager
  obtain ⟨rfl, rfl⟩ := Prod.mk.inj (Option.some.inj returns)
  exact step

-----------------------------------------------------------------------------------------
-- Lookups after a step
-----------------------------------------------------------------------------------------

theorem lookup_setTrade (tradeId : Nat) (trade : TradeSession) (manager : TradeManager)
    (id : Nat)
    : (manager.setTrade tradeId trade).trades.lookup id
      = if id = tradeId then some trade else manager.trades.lookup id :=
  FinMap.lookup_insert_eq _ _ _ _

theorem active_release (trade : TradeSession) (manager : TradeManager) (player : String)
    : (manager.release trade).activeTrades.lookup player
      = if trade.HasParticipant player then none else manager.activeTrades.lookup player := by
  unfold release TradeSession.HasParticipant
  rw [FinMap.lookup_erase_eq, FinMap.lookup_erase_eq]
  by_cases isAcceptor : player = trade.acceptor
  · simp [isAcceptor]
  · by_cases isInitiator : player = trade.initiator
    · simp [isInitiator]
    · simp [isAcceptor, isInitiator, Ne.symm isAcceptor, Ne.symm isInitiator]

end TradeManager

end VeloChain
