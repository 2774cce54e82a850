import VeloChain.GameEngine.Trading

/-! The active trade of each player.
The index never leads to a trade that has ended or that the player has no part in. That it
leads to every accepted trade, and that ended trades stay as they are, depends on which trades
the players accept and cancel.
-/

namespace VeloChain

namespace TradeManager

variable {manager after : TradeManager} {op : TradeCall} {reply : Option TradeResult}

-----------------------------------------------------------------------------------------
-- Expiry
-----------------------------------------------------------------------------------------

theorem lookup_expireTrade (manager : TradeManager) (tradeId id : Nat)
    : (manager.expireTrade tradeId).trades.lookup id
      = if id = tradeId then (manager.trades.lookup id).map (·.withState .expired)
        else manager.trades.lookup id := by
  unfold expireTrade
  cases found : manager.trades.lookup tradeId with
  | none =>
      simp only
      split
      next same =>
        rw [same, found]
        rfl
      next => rfl
  | some trade =>
      simp only
      change (manager.setTrade tradeId _).trades.lookup id = _
      rw [lookup_setTrade]
      split
      next same =>
        rw [same, found]
        rfl
      next => rfl

theorem active_expireTrade (manager : TradeManager) (tradeId : Nat) (player : String)
    (active : Nat)
    : (manager.expireTrade tradeId).activeTrades.lookup player = some active
      ↔ manager.activeTrades.lookup player = some active
        ∧ ∀ trade, manager.trades.lookup tradeId = some trade →
            ¬ trade.HasParticipant player := by
  unfold expireTrade
  cases found : manager.trades.lookup tradeId with
  | none => simp
  | some trade =>
      simp only [Option.some.injEq, forall_eq']
      rw [active_release]
      change (if _ then none else manager.activeTrades.lookup player) = _ ↔ _
      split
      next own => simp [own]
      next other => simp [other]

/-- Expiring trades one after another expires each listed one. -/
theorem lookup_expireTrades (ids : List Nat) (manager : TradeManager) (id : Nat)
    : (ids.foldl expireTrade manager).trades.lookup id
      = if id ∈ ids then (manager.trades.lookup id).map (·.withState .expired)
        else manager.trades.lookup id := by
  induction ids generalizing manager with
  | nil => rfl
  | cons first rest ih =>
      rw [List.foldl_cons, ih, lookup_expireTrade]
      by_cases same : id = first
      · cases manager.trades.lookup id with
        | none => simp [same]
        | some trade => simp [same, TradeSession.withState]
      · simp [same]

/-- A player keeps an active trade through an expiry when no expired trade is one of theirs. -/
theorem active_expireTrades (ids : List Nat) (manager : TradeManager) (player : String)
    (active : Nat)
    : (ids.foldl expireTrade manager).activeTrades.lookup player = some active
      ↔ manager.activeTrades.lookup player = some active
        ∧ ∀ id ∈ ids, ∀ trade, manager.trades.lookup id = some trade →
            ¬ trade.HasParticipant player := by
  induction ids generalizing manager with
  | nil => simp
  | cons first rest ih =>
      have parties (id : Nat)
          : (∀ trade, (manager.expireTrade first).trades.lookup id = some trade →
                ¬ trade.HasParticipant player)
            ↔ ∀ trade, manager.trades.lookup id = some trade →
                ¬ trade.HasParticipant player := by
        rw [lookup_expireTrade]
        cases found : manager.trades.lookup id with
        | none => simp
        | some trade =>
            split
            next => simp [TradeSession.withState, TradeSession.HasParticipant]
            next => exact Iff.rfl
      rw [List.foldl_cons, ih, List.forall_mem_cons, active_expireTrade, and_assoc]
      simp only [parties]

theorem mem_expiredIds {order : IterationOrder Nat TradeSession} {currentTick : UInt64}
    {id : Nat}
    : id ∈ manager.expiredIds order currentTick
      ↔ ∃ trade, manager.trades.lookup id = some trade ∧ trade.Due currentTick := by
  unfold expiredIds
  rw [List.mem_filter, order.mem_keys]
  cases found : manager.trades.lookup id with
  | none => simp
  | some trade => simp [Finmap.mem_of_lookup_eq_some found]

theorem lookup_tickExpirations (order : IterationOrder Nat TradeSession) (currentTick : UInt64)
    (manager : TradeManager) (id : Nat)
    : (manager.tickExpirations order currentTick).trades.lookup id
      = (manager.trades.lookup id).map
          (fun trade => if trade.Due currentTick then trade.withState .expired else trade) := by
  unfold tickExpirations
  rw [lookup_expireTrades]
  cases found : manager.trades.lookup id with
  | none => simp
  | some trade =>
      simp only [mem_expiredIds, found, Option.some.injEq, exists_eq_left', Option.map_some]
      split <;> rfl

theorem active_tickExpirations (order : IterationOrder Nat TradeSession) (currentTick : UInt64)
    (manager : TradeManager) (player : String) (active : Nat)
    : (manager.tickExpirations order currentTick).activeTrades.lookup player = some active
      ↔ manager.activeTrades.lookup player = some active
        ∧ ∀ id trade, manager.trades.lookup id = some trade → trade.Due currentTick →
            ¬ trade.HasParticipant player := by
  unfold tickExpirations
  rw [active_expireTrades]
  refine and_congr_right fun _ => ⟨?_, ?_⟩
  · intro none id trade found due
    exact none id (mem_expiredIds.mpr ⟨trade, found, due⟩) trade found
  · intro none id member trade found
    obtain ⟨other, same, due⟩ := mem_expiredIds.mp member
    obtain rfl := Option.some.inj (found.symm.trans same)
    exact none id trade found due

theorem nextId_tickExpirations (order : IterationOrder Nat TradeSession) (currentTick : UInt64)
    (manager : TradeManager)
    : (manager.tickExpirations order currentTick).nextId = manager.nextId := by
  unfold tickExpirations
  generalize manager.expiredIds order currentTick = ids
  induction ids generalizing manager with
  | nil => rfl
  | cons first rest ih =>
      rw [List.foldl_cons, ih]
      unfold expireTrade
      split <;> rfl

-----------------------------------------------------------------------------------------
-- What holds in every run
-----------------------------------------------------------------------------------------

/-- Sessions stand under their ids, and the index leads each player to a trade of theirs that
has not ended.
-/
structure Indexed (manager : TradeManager) : Prop where
  numbered
    : ∀ id trade, manager.trades.lookup id = some trade →
        trade.id = id ∧ id < manager.nextId
  active
    : ∀ player id, manager.activeTrades.lookup player = some id →
        ∃ trade,
          manager.trades.lookup id = some trade
          ∧ ¬ trade.state.Final
          ∧ trade.HasParticipant player

theorem indexed_new : new.Indexed := by
  constructor
  · intro id trade found
    simp [new] at found
  · intro player id found
    simp [new] at found

/-- Writing a session back under its id keeps the ids. -/
theorem Indexed.numbered_setTrade (indexed : manager.Indexed) {tradeId : Nat}
    {trade next : TradeSession} (found : manager.trades.lookup tradeId = some trade)
    (same : trade.SameParties next)
    : ∀ id other, (manager.setTrade tradeId next).trades.lookup id = some other →
        other.id = id ∧ id < manager.nextId := by
  intro id other stored
  rw [lookup_setTrade] at stored
  split at stored
  next equal =>
    obtain rfl := Option.some.inj stored
    obtain ⟨own, below⟩ := indexed.numbered tradeId trade found
    exact ⟨same.id.trans (own.trans equal.symm), equal ▸ below⟩
  next => exact indexed.numbered id other stored

/-- An update that does not end the trade keeps the index. -/
theorem Indexed.active_setTrade (indexed : manager.Indexed) {tradeId : Nat}
    {trade next : TradeSession} (found : manager.trades.lookup tradeId = some trade)
    (same : trade.SameParties next) (alive : ¬ next.state.Final)
    : ∀ player id, manager.activeTrades.lookup player = some id →
        ∃ other,
          (manager.setTrade tradeId next).trades.lookup id = some other
          ∧ ¬ other.state.Final
          ∧ other.HasParticipant player := by
  intro player id active
  obtain ⟨other, stored, notFinal, participant⟩ := indexed.active player id active
  rw [lookup_setTrade]
  split
  next equal =>
    subst equal
    obtain rfl := Option.some.inj (found.symm.trans stored)
    exact ⟨next, rfl, alive, (same.hasParticipant player).mpr participant⟩
  next => exact ⟨other, stored, notFinal, participant⟩

/-- A trade that ends is released by both of its players. -/
theorem Indexed.release (indexed : manager.Indexed) {tradeId : Nat} {trade next : TradeSession}
    (found : manager.trades.lookup tradeId = some trade) (same : trade.SameParties next)
    : ((manager.setTrade tradeId next).release trade).Indexed := by
  refine ⟨indexed.numbered_setTrade found same, ?_⟩
  intro player id active
  rw [active_release] at active
  split at active
  next => cases active
  next outsider =>
    obtain ⟨other, stored, notFinal, participant⟩ := indexed.active player id active
    have different : id ≠ tradeId := by
      intro equal
      subst equal
      obtain rfl := Option.some.inj (found.symm.trans stored)
      exact outsider participant
    refine ⟨other, ?_, notFinal, participant⟩
    exact (lookup_setTrade tradeId next manager id).trans ((if_neg different).trans stored)

theorem Indexed.proposed (indexed : manager.Indexed) (initiator acceptor : String)
    (currentTick : UInt64)
    : Indexed
        { manager with
          nextId := manager.nextId + 1
          trades :=
            manager.trades.insert manager.nextId
              (manager.proposedTrade initiator acceptor currentTick)
          activeTrades := manager.activeTrades.insert initiator manager.nextId } := by
  constructor
  · intro id trade found
    rw [FinMap.lookup_insert_eq] at found
    split at found
    next same =>
      obtain rfl := Option.some.inj found
      exact ⟨same.symm, same ▸ Nat.lt_succ_self _⟩
    next =>
      obtain ⟨own, below⟩ := indexed.numbered id trade found
      exact ⟨own, Nat.lt_succ_of_lt below⟩
  · intro player id active
    rw [FinMap.lookup_insert_eq] at active
    split at active
    next same =>
      obtain rfl := Option.some.inj active
      have alive : ¬ TradeState.proposed.Final := by decide
      exact ⟨_, Finmap.lookup_insert _, alive, Or.inl same.symm⟩
    next =>
      obtain ⟨trade, found, alive, participant⟩ := indexed.active player id active
      refine ⟨trade, ?_, alive, participant⟩
      have old := Nat.ne_of_lt (indexed.numbered id trade found).2
      rwa [FinMap.lookup_insert_eq, if_neg old]

/-- The player who accepts a trade takes part in it. -/
theorem Indexed.accepted (indexed : manager.Indexed) {tradeId : Nat} {trade : TradeSession}
    (found : manager.trades.lookup tradeId = some trade)
    : Indexed
        { manager.setTrade tradeId (trade.withState .negotiating) with
          activeTrades := manager.activeTrades.insert trade.acceptor tradeId } := by
  have same := trade.sameParties_withState .negotiating
  have alive : ¬ (trade.withState .negotiating).state.Final :=
    TradeState.Open.not_final (Or.inl rfl)
  refine ⟨indexed.numbered_setTrade found same, ?_⟩
  intro player id active
  rw [FinMap.lookup_insert_eq] at active
  split at active
  next own =>
    obtain rfl := Option.some.inj active
    refine ⟨trade.withState .negotiating, ?_, alive, Or.inr own.symm⟩
    exact (lookup_setTrade tradeId _ manager tradeId).trans (if_pos rfl)
  next => exact indexed.active_setTrade found same alive player id active

/-- An expiry releases every player of a trade that it ends. -/
theorem Indexed.tickExpirations (indexed : manager.Indexed)
    (order : IterationOrder Nat TradeSession) (currentTick : UInt64)
    : (manager.tickExpirations order currentTick).Indexed := by
  constructor
  · intro id trade found
    rw [lookup_tickExpirations] at found
    obtain ⟨before, stored, same⟩ := Option.map_eq_some_iff.mp found
    obtain ⟨own, below⟩ := indexed.numbered id before stored
    rw [nextId_tickExpirations]
    split at same
    next => exact ⟨same ▸ own, below⟩
    next => exact ⟨same ▸ own, below⟩
  · intro player id active
    obtain ⟨active, kept⟩ := (active_tickExpirations _ _ _ _ _).mp active
    obtain ⟨trade, found, alive, participant⟩ := indexed.active player id active
    refine ⟨trade, ?_, alive, participant⟩
    rw [lookup_tickExpirations, found, Option.map_some,
      if_neg (fun due => kept id trade found due participant)]

/-- Every step keeps the ids and the index. -/
theorem Indexed.step (indexed : manager.Indexed) (step : manager.Step op reply after)
    : after.Indexed := by
  cases step with
  | rejected _ => exact indexed
  | timeoutSet => exact ⟨indexed.numbered, indexed.active⟩
  | @proposed initiator acceptor currentTick _ _ =>
      exact indexed.proposed initiator acceptor currentTick
  | @accepted tradeId trade found _ => exact indexed.accepted found
  | @itemAdded tradeId player itemId quantity trade found _ _ =>
      have same := trade.sameParties_withItem player itemId quantity
      have alive : ¬ (trade.withItem player itemId quantity).state.Final := by
        rw [trade.state_withItem]
        decide
      exact ⟨indexed.numbered_setTrade found same, indexed.active_setTrade found same alive⟩
  | @confirmed tradeId player trade found _ _ waits =>
      have same := trade.sameParties_withConfirmation player
      exact ⟨indexed.numbered_setTrade found same,
        indexed.active_setTrade found same waits.not_final⟩
  | @completed tradeId player trade found _ _ _ =>
      exact indexed.release found (trade.sameParties_withConfirmation player)
  | @cancelled tradeId player trade found _ =>
      exact indexed.release found (trade.sameParties_withState .cancelled)
  | @expired order currentTick => exact indexed.tickExpirations order currentTick

theorem Indexed.call (indexed : manager.Indexed)
    (returns : manager.call op = some (reply, after)) : after.Indexed :=
  indexed.step (step_of_call returns)

-----------------------------------------------------------------------------------------
-- One open trade for each player
-----------------------------------------------------------------------------------------

/-- Every open trade is the active trade of both its players. -/
def OpenActive (manager : TradeManager) : Prop :=
  ∀ id trade player, manager.trades.lookup id = some trade → trade.state.Open →
    trade.HasParticipant player → manager.activeTrades.lookup player = some id

/-- The index leads to trades of the player that have not ended, every accepted trade that has
not ended is the active one of both its players, and so nobody has two of them.
-/
structure OneLiveTrade (manager : TradeManager) : Prop where
  active
    : ∀ player id, manager.activeTrades.lookup player = some id →
        ∃ trade,
          manager.trades.lookup id = some trade
          ∧ ¬ trade.state.Final
          ∧ trade.HasParticipant player
  openActive : manager.OpenActive
  single
    : ∀ first second trade trade' player, manager.trades.lookup first = some trade →
        manager.trades.lookup second = some trade' → trade.state.Open → trade'.state.Open →
        trade.HasParticipant player → trade'.HasParticipant player → first = second

theorem Indexed.liveTrade_step_iff (indexed : manager.Indexed)
    : manager.OneLiveTrade ↔ manager.OpenActive := by
  refine ⟨OneLiveTrade.openActive, fun openActive => ⟨indexed.active, openActive, ?_⟩⟩
  intro first second trade trade' player found found' isOpen isOpen' own own'
  have same := openActive first trade player found isOpen own
  exact Option.some.inj (same.symm.trans (openActive second trade' player found' isOpen' own'))

/-- The player takes part in an open trade other than these. -/
def EngagedBeside (manager : TradeManager) (beside : Nat → TradeSession → Prop)
    (player : String) : Prop :=
  ∃ id trade,
    manager.trades.lookup id = some trade
    ∧ ¬ beside id trade
    ∧ trade.state.Open
    ∧ trade.HasParticipant player

/-- A player accepts a trade while engaged in no other one and while it is still the active
trade of its initiator; nobody is engaged in another trade when one of theirs is cancelled, or
expires while the other does not.
-/
def KeepsIndex (manager : TradeManager) : TradeCall → Prop
  | .acceptTrade tradeId player =>
      ∀ trade, manager.trades.lookup tradeId = some trade → trade.acceptor = player →
        trade.state = .proposed →
        (trade.initiator = player
            ∨ manager.activeTrades.lookup trade.initiator = some tradeId)
        ∧ ¬ manager.EngagedBeside (fun _ _ => False) player
  | .cancelTrade tradeId player =>
      ∀ trade, manager.trades.lookup tradeId = some trade → trade.HasParticipant player →
        ∀ other, trade.HasParticipant other →
          ¬ manager.EngagedBeside (fun id _ => id = tradeId) other
  | .tickExpirations _ currentTick =>
      ∀ id trade player, manager.trades.lookup id = some trade → trade.Due currentTick →
        trade.HasParticipant player →
        ¬ manager.EngagedBeside (fun _ other => other.Due currentTick) player
  | _ => True

/-- An update that keeps a trade open, or leaves it not open, keeps what is indexed. -/
theorem OpenActive.setTrade (openActive : manager.OpenActive) {tradeId : Nat}
    {trade next : TradeSession} (found : manager.trades.lookup tradeId = some trade)
    (same : trade.SameParties next) (wasOpen : next.state.Open → trade.state.Open)
    : (manager.setTrade tradeId next).OpenActive := by
  intro id other player stored isOpen participant
  rw [lookup_setTrade] at stored
  split at stored
  next equal =>
    obtain rfl := Option.some.inj stored
    exact equal ▸ openActive tradeId trade player found (wasOpen isOpen)
      ((same.hasParticipant player).mp participant)
  next => exact openActive id other player stored isOpen participant

/-- A trade may be released exactly when its players are engaged in no other one. -/
theorem OpenActive.release_iff (openActive : manager.OpenActive) {tradeId : Nat}
    {trade next : TradeSession} (ended : ¬ next.state.Open)
    : ((manager.setTrade tradeId next).release trade).OpenActive
      ↔ ∀ player, trade.HasParticipant player →
          ¬ manager.EngagedBeside (fun id _ => id = tradeId) player := by
  have lookup (id : Nat)
      : ((manager.setTrade tradeId next).release trade).trades.lookup id
        = if id = tradeId then some next else manager.trades.lookup id :=
    lookup_setTrade tradeId next manager id
  constructor
  · rintro kept player own ⟨id, other, found, different, isOpen, participant⟩
    have active := kept id other player
      ((lookup id).trans ((if_neg different).trans found)) isOpen participant
    rw [active_release, if_pos own] at active
    cases active
  · intro free id other player stored isOpen participant
    rw [lookup] at stored
    split at stored
    next =>
      obtain rfl := Option.some.inj stored
      exact absurd isOpen ended
    next different =>
      have outsider : ¬ trade.HasParticipant player := fun own =>
        free player own ⟨id, other, stored, different, isOpen, participant⟩
      rw [active_release, if_neg outsider]
      exact openActive id other player stored isOpen participant

/-- A new trade is not open yet, and its initiator is engaged in none. -/
theorem OpenActive.proposed (openActive : manager.OpenActive) {initiator : String}
    (free : initiator ∉ manager.activeTrades) {trade : TradeSession}
    (notOpen : ¬ trade.state.Open)
    : OpenActive
        { manager with
          nextId := manager.nextId + 1
          trades := manager.trades.insert manager.nextId trade
          activeTrades := manager.activeTrades.insert initiator manager.nextId } := by
  intro id other player stored isOpen participant
  rw [FinMap.lookup_insert_eq] at stored
  split at stored
  next =>
    obtain rfl := Option.some.inj stored
    exact absurd isOpen notOpen
  next =>
    have active := openActive id other player stored isOpen participant
    have different : player ≠ initiator := by
      rintro rfl
      exact free (Finmap.mem_of_lookup_eq_some active)
    rwa [FinMap.lookup_insert_eq, if_neg different]

/-- A trade may be accepted exactly under the condition on its two players. -/
theorem OpenActive.accepted_iff (openActive : manager.OpenActive) {tradeId : Nat}
    {trade : TradeSession} (found : manager.trades.lookup tradeId = some trade)
    (isProposed : trade.state = .proposed)
    : OpenActive
        { manager.setTrade tradeId (trade.withState .negotiating) with
          activeTrades := manager.activeTrades.insert trade.acceptor tradeId }
      ↔ (trade.initiator = trade.acceptor
            ∨ manager.activeTrades.lookup trade.initiator = some tradeId)
        ∧ ¬ manager.EngagedBeside (fun _ _ => False) trade.acceptor := by
  have lookup (id : Nat) := lookup_setTrade tradeId (trade.withState .negotiating) manager id
  have closed : ¬ trade.state.Open := by
    rw [isProposed]
    decide
  constructor
  · intro kept
    constructor
    · have active := kept tradeId (trade.withState .negotiating) trade.initiator
        ((lookup tradeId).trans (if_pos rfl)) (Or.inl rfl) (Or.inl rfl)
      rw [FinMap.lookup_insert_eq] at active
      split at active
      next same => exact Or.inl same
      next => exact Or.inr active
    · rintro ⟨id, other, stored, _, isOpen, participant⟩
      have different : id ≠ tradeId := by
        rintro rfl
        obtain rfl := Option.some.inj (found.symm.trans stored)
        exact closed isOpen
      have active := kept id other trade.acceptor
        ((lookup id).trans ((if_neg different).trans stored)) isOpen participant
      rw [FinMap.lookup_insert_eq, if_pos rfl] at active
      exact different (Option.some.inj active).symm
  · rintro ⟨own, free⟩ id other player stored isOpen participant
    change (manager.setTrade tradeId _).trades.lookup id = some other at stored
    rw [lookup] at stored
    rw [FinMap.lookup_insert_eq]
    split at stored
    next same =>
      obtain rfl := Option.some.inj stored
      split
      next => rw [same]
      next notAcceptor =>
        rcases participant with rfl | rfl
        · rcases own with both | active
          · exact absurd both notAcceptor
          · rw [same]
            exact active
        · exact absurd rfl notAcceptor
    next =>
      have different : player ≠ trade.acceptor := by
        rintro rfl
        exact free ⟨id, other, stored, not_false, isOpen, participant⟩
      rw [if_neg different]
      exact openActive id other player stored isOpen participant

/-- Trades may expire exactly when their players are engaged in no trade that stays. -/
theorem OpenActive.expired_iff (openActive : manager.OpenActive)
    (order : IterationOrder Nat TradeSession) (currentTick : UInt64)
    : (manager.tickExpirations order currentTick).OpenActive
      ↔ manager.KeepsIndex (.tickExpirations order currentTick) := by
  have stays {id : Nat} {trade : TradeSession}
      (stored : (manager.tickExpirations order currentTick).trades.lookup id = some trade)
      (isOpen : trade.state.Open)
      : manager.trades.lookup id = some trade ∧ ¬ trade.Due currentTick := by
    rw [lookup_tickExpirations] at stored
    obtain ⟨before, found, same⟩ := Option.map_eq_some_iff.mp stored
    split at same
    next =>
      subst same
      have closed : ¬ TradeState.expired.Open := by decide
      exact absurd isOpen closed
    next notDue => exact same ▸ ⟨found, notDue⟩
  constructor
  · rintro kept id trade player found due own ⟨other, trade', stored, notDue, isOpen, own'⟩
    have stored' : (manager.tickExpirations order currentTick).trades.lookup other
        = some trade' := by
      rw [lookup_tickExpirations, stored, Option.map_some, if_neg notDue]
    have active := kept other trade' player stored' isOpen own'
    exact ((active_tickExpirations _ _ _ _ _).mp active).2 id trade found due own
  · intro free id trade player stored isOpen participant
    obtain ⟨found, notDue⟩ := stays stored isOpen
    apply (active_tickExpirations _ _ _ _ _).mpr
    refine ⟨openActive id trade player found isOpen participant, ?_⟩
    intro other trade' found' due own
    exact free other trade' player found' due own ⟨id, trade, found, notDue, isOpen, participant⟩

/-- One step keeps open trades active exactly when it meets the condition. -/
theorem OpenActive.step_iff (openActive : manager.OpenActive)
    (step : manager.Step op reply after)
    : after.OpenActive ↔ manager.KeepsIndex op := by
  cases step with
  | rejected refused =>
      refine iff_of_true openActive ?_
      cases op with
      | acceptTrade tradeId player =>
          exact fun trade found isAcceptor isProposed =>
            absurd isProposed (refused trade found isAcceptor)
      | cancelTrade tradeId player =>
          exact fun trade found participant => absurd participant (refused trade found)
      | tickExpirations _ _ => exact refused.elim
      | proposeTrade _ _ _ => trivial
      | addItem _ _ _ _ => trivial
      | confirmTrade _ _ => trivial
      | setDefaultTimeout _ => trivial
  | timeoutSet => exact iff_of_true openActive trivial
  | proposed free _ =>
      have notOpen : ¬ TradeState.proposed.Open := by decide
      exact iff_of_true (openActive.proposed free notOpen) trivial
  | @accepted tradeId trade found isProposed =>
      rw [openActive.accepted_iff found isProposed]
      constructor
      · intro met other stored _ _
        obtain rfl := Option.some.inj (found.symm.trans stored)
        exact met
      · exact fun met => met trade found rfl isProposed
  | @itemAdded tradeId player itemId quantity trade found isOpen _ =>
      exact iff_of_true (openActive.setTrade found
        (trade.sameParties_withItem player itemId quantity) (fun _ => isOpen)) trivial
  | @confirmed tradeId player trade found isOpen _ _ =>
      exact iff_of_true (openActive.setTrade found
        (trade.sameParties_withConfirmation player) (fun _ => isOpen)) trivial
  | @completed tradeId player trade found isOpen _ both =>
      refine iff_of_true ((openActive.release_iff ?_).mpr ?_) trivial
      · rw [both]
        decide
      · rintro participant own ⟨id, other, stored, different, otherOpen, otherOwn⟩
        have first := openActive tradeId trade participant found isOpen own
        have second := openActive id other participant stored otherOpen otherOwn
        exact different (Option.some.inj (second.symm.trans first))
  | @cancelled tradeId player trade found participant =>
      have ended : ¬ (trade.withState .cancelled).state.Open := by
        change ¬ TradeState.cancelled.Open
        decide
      rw [openActive.release_iff ended]
      constructor
      · intro free other stored _
        obtain rfl := Option.some.inj (found.symm.trans stored)
        exact free
      · exact fun free => free trade found participant
  | @expired order currentTick => exact openActive.expired_iff order currentTick

/-- In every run the index leads to live trades of the player; every accepted live trade is the
active one of both its players throughout exactly when every step meets the condition.
-/
theorem oneLiveTrade_iff (ops : List TradeCall)
    : (∀ turn ∈ CallTrace.calls call ops new, turn.after.OneLiveTrade)
      ↔ ∀ turn ∈ CallTrace.calls call ops new, turn.before.KeepsIndex turn.op := by
  have start : new.OpenActive := fun id trade player found => by simp [new] at found
  apply CallTrace.kept_iff Indexed OneLiveTrade
  · exact fun _ _ _ _ indexed returns => indexed.call returns
  · intro turn indexed live returns
    rw [(indexed.call returns).liveTrade_step_iff]
    exact live.openActive.step_iff (step_of_call returns)
  · exact indexed_new
  · exact indexed_new.liveTrade_step_iff.mpr start

/-- Two players who have both invited a third one: the third one accepts both trades. -/
theorem oneLiveTrade_fails
    : ¬ ∀ ops, ∀ turn ∈ CallTrace.calls call ops new, turn.after.OneLiveTrade := by
  intro law
  have live := law
    [.proposeTrade "alice" "bob" 1, .proposeTrade "carol" "bob" 1, .acceptTrade 1 "bob",
      .acceptTrade 2 "bob"]
  have twice
      : ∃ turn ∈ CallTrace.calls call
          [.proposeTrade "alice" "bob" 1, .proposeTrade "carol" "bob" 1, .acceptTrade 1 "bob",
            .acceptTrade 2 "bob"]
          new,
          (turn.after.trades.lookup 1).map
              (fun trade => (decide trade.state.Open, trade.acceptor))
            = some (true, "bob")
          ∧ turn.after.activeTrades.lookup "bob" = some 2 := by
    decide +kernel
  obtain ⟨turn, member, isOpen, active⟩ := twice
  obtain ⟨trade, found, same⟩ := Option.map_eq_some_iff.mp isOpen
  obtain ⟨isOpen, acceptor⟩ := Prod.mk.inj same
  have first := (live turn member).openActive 1 trade "bob" found (of_decide_eq_true isOpen)
    (Or.inr acceptor)
  simp [active] at first

-----------------------------------------------------------------------------------------
-- Ended trades
-----------------------------------------------------------------------------------------

/-- Every trade that has ended is still there, in the same state. -/
def FinalStatesKept (before after : TradeManager) : Prop :=
  ∀ id trade, before.trades.lookup id = some trade → trade.state.Final →
    ∃ later, after.trades.lookup id = some later ∧ later.state = trade.state

theorem FinalStatesKept.refl (manager : TradeManager) : manager.FinalStatesKept manager :=
  fun _ trade found _ => ⟨trade, found, rfl⟩

theorem FinalStatesKept.trans {first second third : TradeManager}
    (left : first.FinalStatesKept second) (right : second.FinalStatesKept third)
    : first.FinalStatesKept third := by
  intro id trade found isFinal
  obtain ⟨middle, stored, same⟩ := left id trade found isFinal
  obtain ⟨last, kept, equal⟩ := right id middle stored (same ▸ isFinal)
  exact ⟨last, kept, equal.trans same⟩

/-- An operation on a trade that has ended changes no active trade. -/
def FinalIdle (op : TradeCall) (before after : TradeManager) : Prop :=
  ∀ id trade, op.tradeId = some id → before.trades.lookup id = some trade →
    trade.state.Final → after.activeTrades = before.activeTrades

/-- A participant cancels a trade that has ended only if it is cancelled already and neither
of its players is trading.
-/
def SparesFinal (manager : TradeManager) : TradeCall → Prop
  | .cancelTrade tradeId player =>
      ∀ trade, manager.trades.lookup tradeId = some trade → trade.HasParticipant player →
        trade.state.Final →
        trade.state = .cancelled
        ∧ ∀ other, trade.HasParticipant other → manager.activeTrades.lookup other = none
  | _ => True

/-- A session that has not ended may be written back in any state. -/
theorem FinalStatesKept.setTrade {tradeId : Nat} {trade next : TradeSession}
    (found : manager.trades.lookup tradeId = some trade)
    (kept : trade.state.Final → next.state = trade.state)
    : manager.FinalStatesKept (manager.setTrade tradeId next) := by
  intro id other stored isFinal
  rw [lookup_setTrade]
  split
  next same =>
    subst same
    obtain rfl := Option.some.inj (found.symm.trans stored)
    exact ⟨next, rfl, kept isFinal⟩
  next => exact ⟨other, stored, rfl⟩

/-- Releasing players who are not trading changes nothing. -/
theorem active_release_eq_iff (trade : TradeSession) (manager : TradeManager)
    : (manager.release trade).activeTrades = manager.activeTrades
      ↔ ∀ player, trade.HasParticipant player → manager.activeTrades.lookup player = none := by
  constructor
  · intro same player own
    rw [← same, active_release, if_pos own]
  · intro free
    apply Finmap.ext_lookup
    intro player
    rw [active_release]
    split
    next own => exact (free player own).symm
    next => rfl

/-- An operation on a trade that has not ended is no operation on one that has. -/
theorem finalIdle_of_not_final {tradeId : Nat} {trade : TradeSession}
    (target : op.tradeId = some tradeId) (found : manager.trades.lookup tradeId = some trade)
    (alive : ¬ trade.state.Final) : FinalIdle op manager after := by
  intro id other same stored isFinal
  obtain rfl := Option.some.inj (target.symm.trans same)
  obtain rfl := Option.some.inj (found.symm.trans stored)
  exact absurd isFinal alive

/-- A cancellation spares the trades that have ended exactly under the condition. -/
theorem cancelled_spares_iff {tradeId : Nat} {player : String} {trade : TradeSession}
    (found : manager.trades.lookup tradeId = some trade)
    (participant : trade.HasParticipant player)
    : (manager.FinalStatesKept
            ((manager.setTrade tradeId (trade.withState .cancelled)).release trade)
          ∧ FinalIdle (.cancelTrade tradeId player) manager
              ((manager.setTrade tradeId (trade.withState .cancelled)).release trade))
      ↔ manager.SparesFinal (.cancelTrade tradeId player) := by
  have release := active_release_eq_iff trade
    (manager.setTrade tradeId (trade.withState .cancelled))
  constructor
  · rintro ⟨kept, idle⟩ other stored _ isFinal
    obtain rfl := Option.some.inj (found.symm.trans stored)
    obtain ⟨later, stored', same⟩ := kept tradeId trade found isFinal
    have cancelled : later = trade.withState .cancelled :=
      Option.some.inj (stored'.symm.trans
        ((lookup_setTrade tradeId _ manager tradeId).trans (if_pos rfl)))
    exact ⟨(cancelled ▸ same).symm, release.mp (idle tradeId trade rfl found isFinal)⟩
  · intro spares
    constructor
    · exact FinalStatesKept.setTrade found
        (fun isFinal => (spares trade found participant isFinal).1.symm)
    · intro id other same stored isFinal
      obtain rfl := Option.some.inj same
      obtain rfl := Option.some.inj (found.symm.trans stored)
      exact release.mpr (spares trade found participant isFinal).2

/-- One step spares the trades that have ended exactly when it meets the condition. -/
theorem Indexed.final_iff (indexed : manager.Indexed) (step : manager.Step op reply after)
    : manager.FinalStatesKept after ∧ FinalIdle op manager after ↔ manager.SparesFinal op := by
  cases step with
  | rejected refused =>
      refine iff_of_true ⟨.refl manager, fun _ _ _ _ _ => rfl⟩ ?_
      cases op with
      | cancelTrade tradeId player =>
          exact fun trade found participant => absurd participant (refused trade found)
      | proposeTrade _ _ _ => trivial
      | acceptTrade _ _ => trivial
      | addItem _ _ _ _ => trivial
      | confirmTrade _ _ => trivial
      | tickExpirations _ _ => trivial
      | setDefaultTimeout _ => trivial
  | timeoutSet => exact iff_of_true ⟨FinalStatesKept.refl manager, fun _ _ _ _ _ => rfl⟩ trivial
  | proposed _ _ =>
      refine iff_of_true ⟨?_, fun _ _ target => by cases target⟩ trivial
      intro id trade found _
      have old := Nat.ne_of_lt (indexed.numbered id trade found).2
      exact ⟨trade, by rw [FinMap.lookup_insert_eq, if_neg old, found], rfl⟩
  | @accepted tradeId trade found isProposed =>
      have alive : ¬ trade.state.Final := by
        rw [isProposed]
        decide
      exact iff_of_true
        ⟨FinalStatesKept.setTrade found (absurd · alive), finalIdle_of_not_final rfl found alive⟩
        trivial
  | @itemAdded tradeId player itemId quantity trade found isOpen _ =>
      exact iff_of_true
        ⟨FinalStatesKept.setTrade found (absurd · isOpen.not_final),
          finalIdle_of_not_final rfl found isOpen.not_final⟩
        trivial
  | @confirmed tradeId player trade found isOpen _ _ =>
      exact iff_of_true
        ⟨FinalStatesKept.setTrade found (absurd · isOpen.not_final),
          finalIdle_of_not_final rfl found isOpen.not_final⟩
        trivial
  | @completed tradeId player trade found isOpen _ _ =>
      exact iff_of_true
        ⟨@FinalStatesKept.setTrade manager tradeId trade (trade.withConfirmation player) found
            (absurd · isOpen.not_final),
          finalIdle_of_not_final rfl found isOpen.not_final⟩
        trivial
  | @cancelled tradeId player trade found participant =>
      exact cancelled_spares_iff found participant
  | @expired order currentTick =>
      refine iff_of_true ⟨?_, fun _ _ target => by cases target⟩ trivial
      intro id trade found isFinal
      refine ⟨trade, ?_, rfl⟩
      rw [lookup_tickExpirations, found, Option.map_some, if_neg (fun due => due.1 isFinal)]

/-- The law of ended trades: they keep their states between any two points of a run, and the
operations on them change no active trade.
-/
structure TradesFinal (ops : List TradeCall) (manager : TradeManager) : Prop where
  states
    : ∀ earlier later more, ops = earlier ++ later ++ more →
        (CallTrace.final call earlier manager).FinalStatesKept
          (CallTrace.final call (earlier ++ later) manager)
  idle
    : ∀ turn ∈ CallTrace.calls call ops manager, FinalIdle turn.op turn.before turn.after

/-- Ended trades stay as they are in a run exactly when no participant cancels one of them,
except a cancelled one of players who are not trading.
-/
theorem tradesFinal_iff (ops : List TradeCall)
    : TradesFinal ops new
      ↔ ∀ turn ∈ CallTrace.calls call ops new, turn.before.SparesFinal turn.op := by
  have decided := @CallTrace.forall_calls_iff _ _ _ call Indexed
    (fun turn => turn.before.FinalStatesKept turn.after
      ∧ FinalIdle turn.op turn.before turn.after)
    (fun turn => turn.before.SparesFinal turn.op)
    (fun _ _ _ _ indexed returns => indexed.call returns)
    (fun _ indexed returns => indexed.final_iff (step_of_call returns)) ops new indexed_new
  have segments := @CallTrace.segments_iff _ _ _ call FinalStatesKept FinalStatesKept.refl
    (fun _ _ _ => FinalStatesKept.trans) ops new
  rw [← decided]
  constructor
  · rintro ⟨states, idle⟩ turn member
    exact ⟨segments.mp states turn member, idle turn member⟩
  · intro spares
    exact ⟨segments.mpr fun turn member => (spares turn member).1,
      fun turn member => (spares turn member).2⟩

/-- A player cancels a trade after its items have changed hands. -/
theorem tradesFinal_fails : ¬ ∀ ops, TradesFinal ops new := by
  intro law
  have states := (law
    ([.proposeTrade "alice" "bob" 1, .acceptTrade 1 "bob", .confirmTrade 1 "alice",
        .confirmTrade 1 "bob"]
      ++ [.cancelTrade 1 "alice"] ++ [])).states _ _ _ rfl
  have completed
      : ((CallTrace.final call
          [.proposeTrade "alice" "bob" 1, .acceptTrade 1 "bob", .confirmTrade 1 "alice",
            .confirmTrade 1 "bob"]
          new).trades.lookup 1).map TradeSession.state
        = some .completed := by
    decide +kernel
  have cancelled
      : ((CallTrace.final call
          ([.proposeTrade "alice" "bob" 1, .acceptTrade 1 "bob", .confirmTrade 1 "alice",
              .confirmTrade 1 "bob"]
            ++ [.cancelTrade 1 "alice"])
          new).trades.lookup 1).map TradeSession.state
        = some .cancelled := by
    decide +kernel
  obtain ⟨trade, found, state⟩ := Option.map_eq_some_iff.mp completed
  obtain ⟨later, stored, same⟩ := states 1 trade found (Or.inl state)
  rw [stored, Option.map_some, same, state] at cancelled
  cases cancelled

end TradeManager

end VeloChain
