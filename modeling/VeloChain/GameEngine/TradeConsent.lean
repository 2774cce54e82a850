import VeloChain.GameEngine.TradeIndex

/-! Consent to a trade.
An exchange is reported once, by the confirmation of one player after the one of the other,
with the items as they stood at both. An addition that is refused adds nothing and so resets
nothing.
-/

namespace VeloChain

namespace TradeManager

/-- A call on a trade manager that has returned. -/
abbrev Turn := ReturnedCall TradeManager TradeCall (Option TradeResult)

variable {manager after : TradeManager} {op : TradeCall} {reply : Option TradeResult}
  {past : List Turn} {turn : Turn} {id : Nat} {trade : TradeSession} {player : String}

/-- The call has added an item to the trade. -/
def AddsTo (id : Nat) (turn : Turn) : Prop :=
  (∃ player itemId quantity, turn.op = .addItem id player itemId quantity)
  ∧ turn.reply = some .itemAdded

/-- The call has reported the exchange of the trade. -/
def reports (id : Nat) (turn : Turn) : Bool :=
  match turn.reply with
  | some (.executed tradeId _ _) => tradeId = id
  | _ => false

/-- The player has confirmed the trade between its players, with the items it has, and nothing
has been added to it since.
-/
def ConfirmedSince (past : List Turn) (id : Nat) (player : String) (trade : TradeSession)
    : Prop :=
  ∃ earlier turn since confirmed,
    past = earlier ++ turn :: since
    ∧ turn.op = .confirmTrade id player
    ∧ turn.reply = some .confirmed
    ∧ turn.before.trades.lookup id = some confirmed
    ∧ confirmed.SameParties trade
    ∧ confirmed.initiatorOffer.items = trade.initiatorOffer.items
    ∧ confirmed.acceptorOffer.items = trade.acceptorOffer.items
    ∧ ∀ later ∈ since, ¬ AddsTo id later

/-- The trade keeps its players and its items. -/
structure SameDeal (before after : TradeSession) : Prop where
  parties : before.SameParties after
  initiatorItems : after.initiatorOffer.items = before.initiatorOffer.items
  acceptorItems : after.acceptorOffer.items = before.acceptorOffer.items

theorem SameDeal.refl (trade : TradeSession) : SameDeal trade trade :=
  ⟨⟨rfl, rfl, rfl⟩, rfl, rfl⟩

theorem sameDeal_withConfirmation (trade : TradeSession) (player : String)
    : SameDeal trade (trade.withConfirmation player) :=
  ⟨trade.sameParties_withConfirmation player, (trade.items_withConfirmation player).1,
    (trade.items_withConfirmation player).2⟩

/-- A confirmation stands through a call that adds nothing to the trade. -/
theorem ConfirmedSince.extend {next : TradeSession}
    (confirmed : ConfirmedSince past id player trade) (same : SameDeal trade next)
    (adds : ¬ AddsTo id turn) : ConfirmedSince (past ++ [turn]) id player next := by
  obtain ⟨earlier, call, since, stood, split, op, reply, found, parties, own, other, none⟩ :=
    confirmed
  refine ⟨earlier, call, since ++ [turn], stood, ?_, op, reply, found, ?_, ?_, ?_, ?_⟩
  · rw [split, List.append_assoc, List.cons_append]
  · exact ⟨same.parties.id.trans parties.id, same.parties.initiator.trans parties.initiator,
      same.parties.acceptor.trans parties.acceptor⟩
  · rw [same.initiatorItems, own]
  · rw [same.acceptorItems, other]
  · intro later member
    rcases List.mem_append.mp member with before | last
    · exact none later before
    · rw [List.mem_singleton.mp last]
      exact adds

/-- A confirmation stands right after it was given. -/
theorem ConfirmedSince.now (found : turn.before.trades.lookup id = some trade)
    (isConfirm : turn.op = .confirmTrade id player) (reply : turn.reply = some .confirmed)
    {next : TradeSession} (same : SameDeal trade next)
    : ConfirmedSince (past ++ [turn]) id player next :=
  ⟨past, turn, [], trade, rfl, isConfirm, reply, found, same.parties, same.initiatorItems.symm,
    same.acceptorItems.symm, by simp⟩

/-- The flags of a trade are backed by confirmations that stand, of two different players. -/
structure Backed (past : List Turn) (id : Nat) (trade : TradeSession) : Prop where
  initiator
    : trade.initiatorOffer.confirmed = true → ConfirmedSince past id trade.initiator trade
  acceptor
    : trade.acceptorOffer.confirmed = true →
        trade.acceptor ≠ trade.initiator ∧ ConfirmedSince past id trade.acceptor trade

/-- A trade without confirmations needs no backing. -/
theorem backed_of_unconfirmed (initiator : trade.initiatorOffer.confirmed = false)
    (acceptor : trade.acceptorOffer.confirmed = false) : Backed past id trade :=
  ⟨fun set => by simp [initiator] at set, fun set => by simp [acceptor] at set⟩

theorem Backed.extend {next : TradeSession} (backed : Backed past id trade)
    (same : SameDeal trade next)
    (initiator : next.initiatorOffer.confirmed = trade.initiatorOffer.confirmed)
    (acceptor : next.acceptorOffer.confirmed = trade.acceptorOffer.confirmed)
    (adds : ¬ AddsTo id turn) : Backed (past ++ [turn]) id next := by
  constructor
  · intro set
    rw [same.parties.initiator]
    exact (backed.initiator (initiator ▸ set)).extend same adds
  · intro set
    obtain ⟨different, confirmed⟩ := backed.acceptor (acceptor ▸ set)
    rw [same.parties.acceptor, same.parties.initiator]
    exact ⟨different, confirmed.extend same adds⟩

/-- A confirmation backs the flag it sets. -/
theorem Backed.confirm (backed : Backed past id trade)
    (found : turn.before.trades.lookup id = some trade)
    (isConfirm : turn.op = .confirmTrade id player) (reply : turn.reply = some .confirmed)
    (participant : trade.HasParticipant player)
    : Backed (past ++ [turn]) id (trade.withConfirmation player) := by
  have same := sameDeal_withConfirmation trade player
  have adds : ¬ AddsTo id turn := by
    rintro ⟨⟨_, _, _, isAdd⟩, _⟩
    rw [isConfirm] at isAdd
    cases isAdd
  have now : ConfirmedSince (past ++ [turn]) id player (trade.withConfirmation player) :=
    .now found isConfirm reply same
  by_cases isInitiator : trade.initiator = player
  · constructor
    · intro _
      rw [same.parties.initiator, isInitiator]
      exact now
    · intro set
      have before : trade.acceptorOffer.confirmed = true := by
        rwa [TradeSession.withConfirmation, if_pos isInitiator] at set
      obtain ⟨different, confirmed⟩ := backed.acceptor before
      rw [same.parties.acceptor, same.parties.initiator]
      exact ⟨different, confirmed.extend same adds⟩
  · have isAcceptor : trade.acceptor = player := participant.resolve_left isInitiator
    constructor
    · intro set
      have before : trade.initiatorOffer.confirmed = true := by
        rwa [TradeSession.withConfirmation, if_neg isInitiator] at set
      rw [same.parties.initiator]
      exact (backed.initiator before).extend same adds
    · intro _
      rw [same.parties.acceptor, same.parties.initiator, isAcceptor]
      exact ⟨Ne.symm isInitiator, now⟩

-----------------------------------------------------------------------------------------
-- The past of a trade manager
-----------------------------------------------------------------------------------------

/-- The exchange of a trade has not been reported, or once and the trade has ended. -/
def ReportedOnce (past : List Turn) (id : Nat) (manager : TradeManager) : Prop :=
  past.countP (reports id) = 0
  ∨ (past.countP (reports id) = 1
    ∧ ∃ trade, manager.trades.lookup id = some trade ∧ trade.state.Final)

/-- The flags of trades that have not ended are backed, and no exchange is reported twice. -/
structure Consented (past : List Turn) (manager : TradeManager) : Prop where
  indexed : manager.Indexed
  backed
    : ∀ id trade, manager.trades.lookup id = some trade → ¬ trade.state.Final →
        Backed past id trade
  reported : ∀ id, ReportedOnce past id manager

theorem consented_new : Consented [] new := by
  refine ⟨indexed_new, ?_, fun _ => Or.inl rfl⟩
  intro id trade found
  simp [new] at found

/-- A trade that has ended has ended for good. -/
theorem Indexed.final_stays (indexed : manager.Indexed) (step : manager.Step op reply after)
    (found : manager.trades.lookup id = some trade) (isFinal : trade.state.Final)
    : ∃ later, after.trades.lookup id = some later ∧ later.state.Final := by
  by_cases spares : manager.SparesFinal op
  · obtain ⟨later, stored, same⟩ := ((indexed.final_iff step).mpr spares).1 id trade found isFinal
    exact ⟨later, stored, same ▸ isFinal⟩
  · cases step with
    | rejected _ => exact ⟨trade, found, isFinal⟩
    | @cancelled tradeId player other _ _ =>
        change ∃ later, (manager.setTrade tradeId _).trades.lookup id = some later ∧ _
        rw [lookup_setTrade]
        split
        next => exact ⟨_, rfl, Or.inr (Or.inl rfl)⟩
        next => exact ⟨trade, found, isFinal⟩
    | _ => exact absurd trivial spares

/-- A step that reports no exchange of a trade keeps what has been reported of it. -/
theorem Consented.reported_append (consented : Consented past manager)
    (step : manager.Step op reply after)
    (silent : reports id ⟨manager, op, reply, after⟩ = false)
    : ReportedOnce (past ++ [⟨manager, op, reply, after⟩]) id after := by
  rw [ReportedOnce, List.countP_append, List.countP_singleton, silent]
  rcases consented.reported id with none | ⟨once, trade, found, isFinal⟩
  · exact Or.inl none
  · exact Or.inr ⟨once, consented.indexed.final_stays step found isFinal⟩

/-- The other trades keep their backing while one is written back. -/
theorem Consented.backed_setTrade (consented : Consented past manager) {tradeId : Nat}
    {next : TradeSession} (adds : ∀ other, other ≠ tradeId → ¬ AddsTo other turn)
    (own : ¬ next.state.Final → Backed (past ++ [turn]) tradeId next)
    : ∀ id trade, (manager.setTrade tradeId next).trades.lookup id = some trade →
        ¬ trade.state.Final → Backed (past ++ [turn]) id trade := by
  intro id trade stored alive
  rw [lookup_setTrade] at stored
  split at stored
  next same =>
    obtain rfl := Option.some.inj stored
    exact same ▸ own alive
  next different =>
    exact (consented.backed id trade stored alive).extend (.refl trade) rfl rfl
      (adds id different)

/-- Every step keeps the flags backed. -/
theorem Consented.backed_step (consented : Consented past manager)
    (step : manager.Step op reply after)
    : ∀ id trade, after.trades.lookup id = some trade → ¬ trade.state.Final →
        Backed (past ++ [⟨manager, op, reply, after⟩]) id trade := by
  have kept {id : Nat} {trade : TradeSession} {turn : Turn}
      (found : manager.trades.lookup id = some trade) (alive : ¬ trade.state.Final)
      (adds : ¬ AddsTo id turn) : Backed (past ++ [turn]) id trade :=
    (consented.backed id trade found alive).extend (.refl trade) rfl rfl adds
  cases step with
  | rejected _ =>
      intro id trade found alive
      exact kept found alive (fun adds => by cases adds.2)
  | timeoutSet =>
      intro id trade found alive
      exact kept found alive (fun adds => by cases adds.2)
  | proposed _ _ =>
      intro id trade stored alive
      rw [FinMap.lookup_insert_eq] at stored
      split at stored
      next =>
        obtain rfl := Option.some.inj stored
        exact backed_of_unconfirmed rfl rfl
      next => exact kept stored alive (fun adds => by cases adds.2)
  | @accepted tradeId trade found isProposed =>
      apply consented.backed_setTrade
      · exact fun _ _ adds => by cases adds.2
      · intro _
        have alive : ¬ trade.state.Final := by
          rw [isProposed]
          decide
        exact (consented.backed tradeId trade found alive).extend
          ⟨trade.sameParties_withState _, rfl, rfl⟩ rfl rfl (fun adds => by cases adds.2)
  | @itemAdded tradeId player itemId quantity trade found isOpen _ =>
      apply consented.backed_setTrade
      · rintro other different ⟨⟨_, _, _, isAdd⟩, _⟩
        cases isAdd
        exact different rfl
      · intro _
        unfold TradeSession.withItem
        split <;> exact backed_of_unconfirmed rfl rfl
  | @confirmed tradeId player trade found isOpen participant _ =>
      apply consented.backed_setTrade
      · rintro other _ ⟨⟨_, _, _, isAdd⟩, _⟩
        cases isAdd
      · intro _
        exact (consented.backed tradeId trade found isOpen.not_final).confirm found rfl rfl
          participant
  | @completed tradeId player trade found _ _ both =>
      apply consented.backed_setTrade
      · exact fun _ _ adds => by cases adds.2
      · exact fun alive => absurd (Or.inl both) alive
  | @cancelled tradeId player trade found _ =>
      apply consented.backed_setTrade
      · exact fun _ _ adds => by cases adds.2
      · exact fun alive => absurd (Or.inr (Or.inl rfl)) alive
  | @expired order currentTick =>
      intro id trade stored alive
      rw [lookup_tickExpirations] at stored
      obtain ⟨held, found, same⟩ := Option.map_eq_some_iff.mp stored
      split at same
      next =>
        subst same
        exact absurd (Or.inr (Or.inr rfl)) alive
      next =>
        subst same
        exact kept found alive (fun adds => by cases adds.2)

/-- The exchange of an open trade is the first one reported of it. -/
theorem Consented.reported_step (consented : Consented past manager)
    (step : manager.Step op reply after) (id : Nat)
    : ReportedOnce (past ++ [⟨manager, op, reply, after⟩]) id after := by
  cases report : reports id ⟨manager, op, reply, after⟩ with
  | false => exact consented.reported_append step report
  | true =>
      cases step with
      | @completed tradeId player trade found isOpen participant both =>
          have own : trade.id = tradeId := (consented.indexed.numbered tradeId trade found).1
          obtain rfl : tradeId = id := by simpa [reports, own] using report
          refine Or.inr ⟨?_, trade.withConfirmation player, ?_, Or.inl both⟩
          · rw [List.countP_append, List.countP_singleton, if_pos report]
            rcases consented.reported tradeId with none | ⟨_, ended, stored, isFinal⟩
            · rw [none]
            · obtain rfl := Option.some.inj (found.symm.trans stored)
              exact absurd isFinal isOpen.not_final
          · exact (lookup_setTrade tradeId _ manager tradeId).trans (if_pos rfl)
      | _ => cases report

/-- Every call keeps what holds of the past. -/
theorem Consented.call (consented : Consented past turn.before)
    (returns : turn.before.call turn.op = some (turn.reply, turn.after))
    : Consented (past ++ [turn]) turn.after :=
  have step := step_of_call returns
  ⟨consented.indexed.step step, consented.backed_step step, consented.reported_step step⟩

-----------------------------------------------------------------------------------------
-- Runs
-----------------------------------------------------------------------------------------

/-- The call confirms the trade for one of its two players, after the other one has confirmed
it and nothing has been added since; each is reported to receive what the other one offers.
-/
def Consent (past : List Turn) (turn : Turn) (id : Nat)
    (initiatorReceived acceptorReceived : List (UInt32 × UInt32)) : Prop :=
  ∃ player other trade,
    turn.op = .confirmTrade id player
    ∧ turn.before.trades.lookup id = some trade
    ∧ player ≠ other
    ∧ ((player = trade.initiator ∧ other = trade.acceptor)
      ∨ (player = trade.acceptor ∧ other = trade.initiator))
    ∧ ConfirmedSince past id other trade
    ∧ initiatorReceived = trade.acceptorOffer.items
    ∧ acceptorReceived = trade.initiatorOffer.items

/-- An exchange that is reported has the consent of both players. -/
theorem Consented.consent (consented : Consented past manager)
    (step : manager.Step op reply after)
    {initiatorReceived acceptorReceived : List (UInt32 × UInt32)}
    (executed : reply = some (.executed id initiatorReceived acceptorReceived))
    : Consent past ⟨manager, op, reply, after⟩ id initiatorReceived acceptorReceived := by
  cases step with
  | @completed tradeId player trade found isOpen participant both =>
      simp only [Option.some.injEq, TradeResult.executed.injEq] at executed
      obtain ⟨same, rfl, rfl⟩ := executed
      have own : trade.id = tradeId := (consented.indexed.numbered tradeId trade found).1
      obtain rfl : tradeId = id := own.symm.trans same
      have backed := consented.backed tradeId trade found isOpen.not_final
      by_cases isInitiator : trade.initiator = player
      · have set : trade.acceptorOffer.confirmed = true := by
          rw [TradeSession.withConfirmation, if_pos isInitiator] at both
          by_contra unset
          simp [unset] at both
        obtain ⟨different, confirmed⟩ := backed.acceptor set
        exact ⟨player, trade.acceptor, trade, rfl, found, isInitiator ▸ different.symm,
          Or.inl ⟨isInitiator.symm, rfl⟩, confirmed, rfl, rfl⟩
      · have isAcceptor : trade.acceptor = player := participant.resolve_left isInitiator
        have set : trade.initiatorOffer.confirmed = true := by
          rw [TradeSession.withConfirmation, if_neg isInitiator] at both
          by_contra unset
          simp [unset] at both
        exact ⟨player, trade.initiator, trade, rfl, found, Ne.symm isInitiator,
          Or.inr ⟨isAcceptor.symm, rfl⟩, backed.initiator set, rfl, rfl⟩
  | _ => cases executed

/-- In every run an exchange is reported at most once for each trade, and only with the
consent of both of its players to the items that change hands.
-/
theorem tradeConsent (ops : List TradeCall)
    : (∀ id, (CallTrace.calls call ops new).countP (reports id) ≤ 1)
      ∧ ∀ earlier turn later id initiatorReceived acceptorReceived,
          CallTrace.calls call ops new = earlier ++ turn :: later →
          turn.reply = some (.executed id initiatorReceived acceptorReceived) →
          Consent earlier turn id initiatorReceived acceptorReceived := by
  have keeps := fun past (turn : Turn) (consented : Consented past turn.before)
      (returns : call turn.op turn.before = some (turn.reply, turn.after)) =>
    consented.call returns
  constructor
  · intro id
    have atEnd := @CallTrace.past_invariant_final _ _ _ call Consented keeps ops new []
      consented_new
    rcases atEnd.reported id with none | ⟨once, _⟩
    · exact Nat.le_trans (Nat.le_of_eq none) (Nat.zero_le 1)
    · exact Nat.le_of_eq once
  · intro earlier turn later id initiatorReceived acceptorReceived split executed
    have there := CallTrace.past_invariant Consented keeps consented_new split
    have member : turn ∈ CallTrace.calls call ops new := by
      rw [split]
      exact List.mem_append_right _ List.mem_cons_self
    exact there.consent (step_of_call (CallTrace.call_of_mem member)) executed

end TradeManager

end VeloChain
