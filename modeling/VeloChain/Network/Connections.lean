import VeloChain.Network.PeerLimits

/-! What a connection does to the peers that are connected already.
When the table is full the worst peer is evicted before the limit of the direction is checked,
and whoever connects gets a new entry, also a peer that has one.
-/

namespace VeloChain

/-- The peer has earned nothing beyond its initial score. -/
structure PeerInfo.Pristine (peer : PeerInfo) : Prop where
  score : peer.score = initialScore
  unmarked : peer.disconnectPending = false
  noGood : peer.goodMessages = 0
  noBad : peer.badMessages = 0

namespace PeerManager

/-- The worst-scoring peer, the first of them in the walk. -/
def worstPeer (order : PeerOrder) (manager : PeerManager) : Option PeerInfo :=
  (manager.walk order).minOn? PeerInfo.score

/-- The manager without a peer. -/
def without (peer : PeerInfo) (manager : PeerManager) : PeerManager :=
  { manager with peers := manager.peers.erase peer.peerId }

/-- The manager with a new entry for a peer. -/
def withConnected (peerId : String) (direction : Direction) (manager : PeerManager)
    : PeerManager :=
  { manager with
    peers :=
      manager.peers.insert peerId (.connected peerId direction manager.currentTick) }

/-- How a connection ends, and why. -/
inductive ConnectionOutcome (order : PeerOrder) (peerId : String) (direction : Direction)
    (manager : PeerManager)
    : Bool × PeerManager → Prop
  | banned (banned : manager.isBanned peerId = true)
    : ConnectionOutcome order peerId direction manager (false, manager)
  | alone (free : manager.isBanned peerId = false)
    (full : manager.config.maxPeers ≤ manager.peerCount) (none : manager.worstPeer order = none)
    : ConnectionOutcome order peerId direction manager (false, manager)
  | refused (free : manager.isBanned peerId = false)
    (room : manager.peerCount < manager.config.maxPeers)
    (atLimit : limit manager.config direction ≤ manager.directionCount direction)
    : ConnectionOutcome order peerId direction manager (false, manager)
  | added (free : manager.isBanned peerId = false)
    (room : manager.peerCount < manager.config.maxPeers)
    (below : manager.directionCount direction < limit manager.config direction)
    : ConnectionOutcome order peerId direction manager
        (true, manager.withConnected peerId direction)
  | evicted (free : manager.isBanned peerId = false)
    (full : manager.config.maxPeers ≤ manager.peerCount) (worst : PeerInfo)
    (isWorst : manager.worstPeer order = some worst)
    (atLimit
      : limit manager.config direction ≤ (manager.without worst).directionCount direction)
    : ConnectionOutcome order peerId direction manager (false, manager.without worst)
  | replaced (free : manager.isBanned peerId = false)
    (full : manager.config.maxPeers ≤ manager.peerCount) (worst : PeerInfo)
    (isWorst : manager.worstPeer order = some worst)
    (below : (manager.without worst).directionCount direction < limit manager.config direction)
    : ConnectionOutcome order peerId direction manager
        (true, (manager.without worst).withConnected peerId direction)

/-- A rejection evicts nobody: the peer is banned, the table has room, or there is a place in the
direction once the worst peer is gone.
-/
def RejectsWithoutEviction (order : PeerOrder) (peerId : String) (direction : Direction)
    (manager : PeerManager) : Prop :=
  manager.isBanned peerId = true
  ∨ manager.peerCount < manager.config.maxPeers
  ∨ ∀ worst, manager.worstPeer order = some worst →
      manager.directionCount direction < limit manager.config direction
      ∨ worst.direction = direction

variable {manager : PeerManager} {order : PeerOrder} {peerId : String} {direction : Direction}

-----------------------------------------------------------------------------------------
-- Outcomes
-----------------------------------------------------------------------------------------

/-- A connection by its checks; the limits are checked alike in both directions. -/
theorem onPeerConnected_eq (order : PeerOrder) (peerId : String) (direction : Direction)
    (manager : PeerManager)
    : manager.onPeerConnected order peerId direction
      = if manager.isBanned peerId = true then (false, manager)
        else if (manager.makeRoom order).1 = false then (false, (manager.makeRoom order).2)
        else if limit (manager.makeRoom order).2.config direction
            ≤ (manager.makeRoom order).2.directionCount direction then
          (false, (manager.makeRoom order).2)
        else (true, (manager.makeRoom order).2.withConnected peerId direction) := by
  unfold onPeerConnected
  split
  next => rfl
  next =>
    cases room : (manager.makeRoom order).1 with
    | false => simp [room]
    | true =>
        cases direction with
        | inbound =>
            simp only [room, Bool.not_true, Bool.false_eq_true, Bool.true_eq_false, if_false,
              decide_eq_true_eq]
            rfl
        | outbound =>
            simp only [room, Bool.not_true, Bool.false_eq_true, Bool.true_eq_false, if_false,
              decide_eq_true_eq]
            rfl

theorem makeRoom_cases (order : PeerOrder) (manager : PeerManager)
    : (manager.peerCount < manager.config.maxPeers ∧ manager.makeRoom order = (true, manager))
      ∨ (manager.config.maxPeers ≤ manager.peerCount
        ∧ manager.worstPeer order = none
        ∧ manager.makeRoom order = (false, manager))
      ∨ (manager.config.maxPeers ≤ manager.peerCount
        ∧ ∃ worst,
            manager.worstPeer order = some worst
            ∧ manager.makeRoom order = (true, manager.without worst)) := by
  unfold makeRoom evictWorstPeer worstPeer
  split
  next full =>
    right
    cases (manager.walk order).minOn? PeerInfo.score with
    | none => exact Or.inl ⟨full, rfl, rfl⟩
    | some worst => exact Or.inr ⟨full, worst, rfl, rfl⟩
  next room => exact Or.inl ⟨Nat.lt_of_not_le room, rfl⟩

/-- Every connection has one of the outcomes, by cases on its checks. -/
theorem connectionOutcome (order : PeerOrder) (peerId : String) (direction : Direction)
    (manager : PeerManager)
    : ConnectionOutcome order peerId direction manager
        (manager.onPeerConnected order peerId direction) := by
  rw [onPeerConnected_eq]
  split
  next banned => exact .banned banned
  next notBanned =>
    have free : manager.isBanned peerId = false := Bool.eq_false_iff.mpr notBanned
    rcases manager.makeRoom_cases order with
      ⟨room, made⟩ | ⟨full, none, made⟩ | ⟨full, worst, isWorst, made⟩
    · rw [made, if_neg Bool.true_eq_false.mp]
      split
      next atLimit => exact .refused free room atLimit
      next below => exact .added free room (Nat.lt_of_not_le below)
    · rw [made, if_pos rfl]
      exact .alone free full none
    · rw [made, if_neg Bool.true_eq_false.mp]
      split
      next atLimit => exact .evicted free full worst isWorst atLimit
      next below => exact .replaced free full worst isWorst (Nat.lt_of_not_le below)

-----------------------------------------------------------------------------------------
-- The worst peer
-----------------------------------------------------------------------------------------

theorem worstPeer_eq_some {worst : PeerInfo} (consistent : manager.Consistent)
    (isWorst : manager.worstPeer order = some worst)
    : manager.peers.lookup worst.peerId = some worst := by
  obtain ⟨peerId, found⟩ := mem_walk.mp (List.minOn?_mem isWorst)
  rw [consistent.filed peerId worst found]
  exact found

theorem worstPeer_ne_none {peer : PeerInfo} (found : manager.peers.lookup peerId = some peer)
    : manager.worstPeer order ≠ none := by
  have walked : peer ∈ manager.walk order := mem_walk.mpr ⟨peerId, found⟩
  exact Option.isSome_iff_ne_none.mp (List.isSome_minOn?_of_mem walked)

/-- Without the worst peer the count of its own direction is one less. -/
theorem directionCount_without {worst : PeerInfo} (consistent : manager.Consistent)
    (isWorst : manager.worstPeer order = some worst) (direction : Direction)
    : (manager.without worst).directionCount direction
        + (if worst.direction = direction then 1 else 0)
      = manager.directionCount direction := by
  have counted := @FinMap.count_erase _ _ _ (fun peer => peer.direction = direction) _ _ _
    (worstPeer_eq_some consistent isWorst)
  simp only [decide_eq_true_eq] at counted
  exact counted

/-- The peers of each direction keep to its limit. -/
def WithinDirections (manager : PeerManager) : Prop :=
  ∀ direction, manager.directionCount direction ≤ limit manager.config direction

theorem WithinDirections.step {before after : PeerManager} (within : before.WithinDirections)
    (step : Step before after)
    : after.WithinDirections := by
  intro direction
  rw [step.config]
  exact (step.directionCount_le direction).trans (within direction)

theorem WithinDirections.connect (within : manager.WithinDirections)
    (below : manager.directionCount direction < limit manager.config direction)
    : (manager.withConnected peerId direction).WithinDirections := by
  intro other
  have grows := FinMap.count_insert_le (fun peer => peer.direction = other) manager.peers peerId
    (PeerInfo.connected peerId direction manager.currentTick)
  refine grows.trans ?_
  have held := within other
  change _ ≤ limit manager.config other
  unfold directionCount at held below
  split
  next same =>
    obtain rfl : direction = other := of_decide_eq_true same
    exact below
  next => exact held

/-- Every run keeps each direction to its limit. -/
theorem withinDirections_runAll (config : PeerManagerConfig) (ops : List PeerOp)
    : (CallTrace.final call ops (new config)).WithinDirections := by
  apply CallTrace.final_invariant WithinDirections
  · intro op manager reply after within returns
    rcases call_cases returns with ⟨step, _⟩ | ⟨order, peerId, direction, _, _, _, below, rfl⟩
    · exact within.step step
    · obtain ⟨step, sameTick⟩ := step_makeRoom order manager
      rw [← step.config] at below
      rw [← sameTick]
      exact (within.step step).connect below
  · exact fun _ => Nat.zero_le _

/-- With the worst peer gone there is a place in a direction when there was one before, or when
it was a peer of that direction.
-/
theorem below_without_iff {worst : PeerInfo} (consistent : manager.Consistent)
    (within : manager.WithinDirections) (isWorst : manager.worstPeer order = some worst)
    (direction : Direction)
    : (manager.without worst).directionCount direction < limit manager.config direction
      ↔ manager.directionCount direction < limit manager.config direction
        ∨ worst.direction = direction := by
  have counted := directionCount_without consistent isWorst direction
  have held := within direction
  split at counted
  next same => exact iff_of_true (by omega) (Or.inr same)
  next other =>
    rw [Nat.add_zero] at counted
    rw [counted, or_iff_left other]

-----------------------------------------------------------------------------------------
-- Rejections
-----------------------------------------------------------------------------------------

/-- In every state of every run, a rejection leaves the connected peers as they were exactly when
the connection does not fail after an eviction.
-/
theorem rejectedConnection_iff (config : PeerManagerConfig) (ops : List PeerOp)
    (order : PeerOrder) (peerId : String) (direction : Direction)
    : let manager := CallTrace.final call ops (new config)
      let result := manager.onPeerConnected order peerId direction
      (result.1 = false → result.2.peers = manager.peers)
        ↔ manager.RejectsWithoutEviction order peerId direction := by
  obtain ⟨consistent, _⟩ := consistent_runAll config ops
  have within := withinDirections_runAll config ops
  simp only
  generalize CallTrace.final call ops (new config) = manager at consistent within ⊢
  have outcome := connectionOutcome order peerId direction manager
  generalize manager.onPeerConnected order peerId direction = result at outcome ⊢
  cases outcome with
  | banned banned => exact iff_of_true (fun _ => rfl) (Or.inl banned)
  | alone _ _ none =>
      refine iff_of_true (fun _ => rfl) (Or.inr (Or.inr (fun worst isWorst => ?_)))
      exact absurd (none.symm.trans isWorst) nofun
  | refused _ room _ => exact iff_of_true (fun _ => rfl) (Or.inr (Or.inl room))
  | added _ room _ => exact iff_of_true nofun (Or.inr (Or.inl room))
  | evicted free full worst isWorst atLimit =>
      refine iff_of_false (fun kept => ?_) ?_
      · have gone : (manager.without worst).peers.lookup worst.peerId = none :=
          Finmap.lookup_erase _ _
        rw [kept rfl, worstPeer_eq_some consistent isWorst] at gone
        exact absurd gone nofun
      · rintro (banned | room | spares)
        · exact absurd (free.symm.trans banned) nofun
        · exact absurd room (Nat.not_lt.mpr full)
        · have below := (below_without_iff consistent within isWorst direction).mpr
            (spares worst isWorst)
          exact absurd below (Nat.not_lt.mpr atLimit)
  | replaced _ _ worst isWorst below =>
      refine iff_of_true nofun (Or.inr (Or.inr (fun other isOther => ?_)))
      obtain rfl := Option.some.inj (isWorst.symm.trans isOther)
      exact (below_without_iff consistent within isWorst direction).mp below

/-- One peer in each direction. -/
def twoPeers : PeerManagerConfig :=
  { maxPeers := 2
    maxInbound := 1
    maxOutbound := 1
    idleTimeoutTicks := 300
    decayIntervalTicks := 60
    decayAmount := 5
    chainId := 27181 }

/-- A second inbound peer is rejected, and the outbound peer is gone. -/
theorem rejectedConnection_fails_onOtherDirection
    : let manager :=
        CallTrace.final call
          [.onPeerConnected byName "peer1" .inbound, .onPeerConnected byName "peer2" .outbound,
            .recordEvent "peer2" .timeout] (new twoPeers)
      let result := manager.onPeerConnected byName "peer3" .inbound
      ¬ (result.1 = false → result.2.peers = manager.peers) := by
  intro manager result kept
  have peers := kept (by decide +kernel)
  have before : (manager.peers.lookup "peer2").isSome = true := by decide +kernel
  have after : (result.2.peers.lookup "peer2").isSome = false := by decide +kernel
  rw [peers, before] at after
  exact absurd after nofun

-----------------------------------------------------------------------------------------
-- Connected peers
-----------------------------------------------------------------------------------------

/-- What a peer has earned is still there, and so are all other peers. -/
structure KeepsStanding (before after : PeerManager) (peerId : String) (old : PeerInfo) : Prop
    where
  entry
    : ∃ new,
        after.peers.lookup peerId = some new
        ∧ new.score = old.score
        ∧ new.disconnectPending = old.disconnectPending
        ∧ new.goodMessages = old.goodMessages
        ∧ new.badMessages = old.badMessages
  others : ∀ other ≠ peerId, other ∈ before.peers → other ∈ after.peers

/-- A connection does no harm to what is connected: it is rejected at once, or it finds a pristine
entry, where the table has room or that entry is the worst one and there is a place for it again.
-/
inductive ReconnectsHarmlessly (order : PeerOrder) (peerId : String) (direction : Direction)
    (old : PeerInfo) (manager : PeerManager) : Prop
  | banned (banned : manager.isBanned peerId = true)
  | refused (room : manager.peerCount < manager.config.maxPeers)
    (atLimit : limit manager.config direction ≤ manager.directionCount direction)
  | renewed (room : manager.peerCount < manager.config.maxPeers) (pristine : old.Pristine)
  | evicted (full : manager.config.maxPeers ≤ manager.peerCount)
    (itself : manager.worstPeer order = some old)
    (place
      : manager.directionCount direction < limit manager.config direction
        ∨ old.direction = direction)
    (pristine : old.Pristine)

/-- A new entry keeps the standing of a peer exactly when that was pristine and no other peer is
missing.
-/
theorem keepsStanding_withConnected {before base : PeerManager} {old : PeerInfo}
    : KeepsStanding before (base.withConnected peerId direction) peerId old
      ↔ old.Pristine ∧ ∀ other ≠ peerId, other ∈ before.peers → other ∈ base.peers := by
  have members {other : String} (different : other ≠ peerId)
      : other ∈ (base.withConnected peerId direction).peers ↔ other ∈ base.peers := by
    change other ∈ base.peers.insert _ _ ↔ _
    rw [Finmap.mem_insert, or_iff_right different]
  have own
      : (base.withConnected peerId direction).peers.lookup peerId
        = some (.connected peerId direction base.currentTick) :=
    Finmap.lookup_insert _
  constructor
  · rintro ⟨⟨new, found, score, pending, good, bad⟩, others⟩
    obtain rfl := Option.some.inj (own.symm.trans found)
    exact ⟨⟨score.symm, pending.symm, good.symm, bad.symm⟩,
      fun other different member => (members different).mp (others other different member)⟩
  · rintro ⟨⟨score, pending, good, bad⟩, others⟩
    exact ⟨⟨_, own, score.symm, pending.symm, good.symm, bad.symm⟩,
      fun other different member => (members different).mpr (others other different member)⟩

/-- Evicting the worst peer removes no other peer exactly when it is the peer itself. -/
theorem others_without_iff {worst old : PeerInfo} (consistent : manager.Consistent)
    (connected : manager.peers.lookup peerId = some old)
    (isWorst : manager.worstPeer order = some worst)
    : (∀ other ≠ peerId, other ∈ manager.peers → other ∈ (manager.without worst).peers)
      ↔ worst = old := by
  have found := worstPeer_eq_some consistent isWorst
  constructor
  · intro others
    by_contra different
    have otherName : worst.peerId ≠ peerId := by
      intro same
      rw [same] at found
      exact different (Option.some.inj (found.symm.trans connected))
    exact absurd (others worst.peerId otherName (Finmap.mem_of_lookup_eq_some found))
      Finmap.notMem_erase_self
  · rintro rfl other otherName member
    rw [consistent.filed peerId worst connected] at found
    refine Finmap.mem_erase.mpr ⟨?_, member⟩
    rwa [consistent.filed peerId worst connected]

/-- When the table is full, a connection is harmless exactly when the peer itself makes room, has
a place, and is pristine.
-/
theorem reconnectsHarmlessly_of_full {worst old : PeerInfo} (consistent : manager.Consistent)
    (within : manager.WithinDirections) (free : manager.isBanned peerId = false)
    (full : manager.config.maxPeers ≤ manager.peerCount)
    (isWorst : manager.worstPeer order = some worst)
    : manager.ReconnectsHarmlessly order peerId direction old
      ↔ worst = old
        ∧ (manager.without worst).directionCount direction < limit manager.config direction
        ∧ old.Pristine := by
  rw [below_without_iff consistent within isWorst]
  constructor
  · rintro (banned | ⟨room, _⟩ | ⟨room, _⟩ | ⟨_, itself, place, pristine⟩)
    · exact absurd (free.symm.trans banned) nofun
    · exact absurd room (Nat.not_lt.mpr full)
    · exact absurd room (Nat.not_lt.mpr full)
    · obtain rfl := Option.some.inj (isWorst.symm.trans itself)
      exact ⟨rfl, place, pristine⟩
  · rintro ⟨rfl, place, pristine⟩
    exact .evicted full isWorst place pristine

/-- In every state of every run, a connection of a connected peer keeps its standing and all other
peers exactly when it is harmless.
-/
theorem reconnection_iff (config : PeerManagerConfig) (ops : List PeerOp) {peerId : String}
    {old : PeerInfo}
    (connected : (CallTrace.final call ops (new config)).peers.lookup peerId = some old)
    (order : PeerOrder) (direction : Direction)
    : let manager := CallTrace.final call ops (new config)
      KeepsStanding manager (manager.onPeerConnected order peerId direction).2 peerId old
        ↔ manager.ReconnectsHarmlessly order peerId direction old := by
  obtain ⟨consistent, _⟩ := consistent_runAll config ops
  have within := withinDirections_runAll config ops
  simp only
  generalize CallTrace.final call ops (new config) = manager at connected consistent within ⊢
  have unchanged : KeepsStanding manager manager peerId old :=
    ⟨⟨old, connected, rfl, rfl, rfl, rfl⟩, fun _ _ member => member⟩
  have outcome := connectionOutcome order peerId direction manager
  generalize manager.onPeerConnected order peerId direction = result at outcome ⊢
  cases outcome with
  | banned banned => exact iff_of_true unchanged (.banned banned)
  | alone _ _ none => exact absurd none (worstPeer_ne_none connected)
  | refused _ room atLimit => exact iff_of_true unchanged (.refused room atLimit)
  | added free room below =>
      rw [keepsStanding_withConnected]
      constructor
      · exact fun ⟨pristine, _⟩ => .renewed room pristine
      · rintro (banned | ⟨_, atLimit⟩ | ⟨_, pristine⟩ | ⟨full, _, _, _⟩)
        · exact absurd (free.symm.trans banned) nofun
        · exact absurd below (Nat.not_lt.mpr atLimit)
        · exact ⟨pristine, fun _ _ member => member⟩
        · exact absurd room (Nat.not_lt.mpr full)
  | evicted free full worst isWorst atLimit =>
      rw [reconnectsHarmlessly_of_full consistent within free full isWorst]
      refine iff_of_false ?_ (fun ⟨_, below, _⟩ => absurd below (Nat.not_lt.mpr atLimit))
      rintro ⟨⟨new, found, _⟩, others⟩
      -- nobody else is missing, so it is the peer itself that has been evicted
      obtain rfl := (others_without_iff consistent connected isWorst).mp others
      rw [← consistent.filed peerId worst connected] at found
      exact absurd (Finmap.mem_of_lookup_eq_some found) Finmap.notMem_erase_self
  | replaced free full worst isWorst below =>
      rw [keepsStanding_withConnected, others_without_iff consistent connected isWorst,
        reconnectsHarmlessly_of_full consistent within free full isWorst]
      exact ⟨fun ⟨pristine, itself⟩ => ⟨itself, below, pristine⟩,
        fun ⟨itself, _, pristine⟩ => ⟨pristine, itself⟩⟩

/-- A peer that connects twice and has earned nothing in between. -/
theorem reconnection_iff_twice
    : let manager :=
        CallTrace.final call [.onPeerConnected byName "peer1" .inbound] (new twoPeers)
      KeepsStanding manager (manager.onPeerConnected byName "peer1" .outbound).2 "peer1"
          (.connected "peer1" .inbound 0)
        ↔ manager.ReconnectsHarmlessly byName "peer1" .outbound (.connected "peer1" .inbound 0) :=
  reconnection_iff twoPeers [.onPeerConnected byName "peer1" .inbound] (by decide +kernel) byName
    .outbound

/-- After an invalid block the peer connects again, and its score is the initial one. -/
theorem reconnection_fails_onPenalty
    : let manager :=
        CallTrace.final call
          [.onPeerConnected byName "peer1" .inbound, .recordEvent "peer1" .invalidBlock]
          (new twoPeers)
      ∃ old,
        manager.peers.lookup "peer1" = some old
        ∧ ¬ KeepsStanding manager (manager.onPeerConnected byName "peer1" .outbound).2 "peer1"
          old := by
  intro manager
  refine ⟨{ PeerInfo.connected "peer1" .inbound 0 with score := 50, badMessages := 1 },
    by decide +kernel, ?_⟩
  rintro ⟨⟨new, found, score, _⟩, _⟩
  have fresh
      : (manager.onPeerConnected byName "peer1" .outbound).2.peers.lookup "peer1"
        = some (.connected "peer1" .outbound 0) := by
    decide +kernel
  obtain rfl := Option.some.inj (fresh.symm.trans found)
  exact absurd score (by decide)

end PeerManager

end VeloChain
