import VeloChain.Network.PeerManager

/-! The limits of the peer manager.
An operation lets every entry that stays keep its name and its direction; only an accepted
connection adds one, after room has been made and the limit of its direction checked.
-/

namespace VeloChain

/-- The score is between the lowest and the highest one. -/
def PeerInfo.InRange (peer : PeerInfo) : Prop := -maxScore ≤ peer.score ∧ peer.score ≤ maxScore

/-- What an operation at tick `now` leaves of the entry of a peer that stays. -/
structure PeerInfo.Continues (decayAmount : Score) (now : Nat) (old new : PeerInfo) : Prop where
  peerId : new.peerId = old.peerId
  direction : new.direction = old.direction
  marked : old.disconnectPending = true → new.disconnectPending = true
  active : new.lastActivityTick = old.lastActivityTick ∨ new.lastActivityTick = now
  inRange : 0 ≤ decayAmount → old.InRange → new.InRange

/-- A checked word is the number that was checked. -/
theorem eq_of_checkedWord {n word : Nat} (fits : checkedWord n = some word) : word = n := by
  unfold checkedWord at fits
  split at fits
  next => exact (Option.some.inj fits).symm
  next => simp at fits

theorem eq_of_checkedScore {n : Int} {score : Score} (fits : checkedScore n = some score)
    : score = n := by
  unfold checkedScore at fits
  split at fits
  next => exact (Option.some.inj fits).symm
  next => simp at fits

namespace PeerInfo

theorem Continues.refl (decayAmount : Score) (now : Nat) (peer : PeerInfo)
    : peer.Continues decayAmount now peer :=
  ⟨rfl, rfl, id, Or.inl rfl, fun _ => id⟩

theorem Continues.trans {decayAmount : Score} {now : Nat} {old middle new : PeerInfo}
    (first : old.Continues decayAmount now middle) (second : middle.Continues decayAmount now new)
    : old.Continues decayAmount now new where
  peerId := second.peerId.trans first.peerId
  direction := second.direction.trans first.direction
  marked := second.marked ∘ first.marked
  active := by
    rcases second.active with same | recent
    · exact first.active.imp same.trans same.trans
    · exact Or.inr recent
  inRange := fun positive => second.inRange positive ∘ first.inRange positive

theorem inRange_clamp (sum : Score)
    : -maxScore ≤ max (-maxScore) (min sum maxScore)
      ∧ max (-maxScore) (min sum maxScore) ≤ maxScore :=
  ⟨le_max_left _ _, max_le (by decide) (min_le_right _ _)⟩

/-- An adjusted peer has a clamped score and has just been active. -/
theorem adjust_eq_some {event : ScoreEvent} {now : Nat} {peer adjusted : PeerInfo}
    (done : peer.adjust event now = some adjusted)
    : adjusted.InRange
      ∧ adjusted.lastActivityTick = now
      ∧ adjusted.peerId = peer.peerId
      ∧ adjusted.direction = peer.direction
      ∧ adjusted.disconnectPending = peer.disconnectPending := by
  simp only [adjust, Option.bind_eq_bind, Option.bind_eq_some_iff] at done
  obtain ⟨sum, _, done⟩ := done
  split at done
  next =>
    obtain ⟨_, _, same⟩ := Option.bind_eq_some_iff.mp done
    obtain rfl := Option.some.inj same
    exact ⟨inRange_clamp sum, rfl, rfl, rfl, rfl⟩
  next =>
    split at done
    next =>
      obtain ⟨_, _, same⟩ := Option.bind_eq_some_iff.mp done
      obtain rfl := Option.some.inj same
      exact ⟨inRange_clamp sum, rfl, rfl, rfl, rfl⟩
    next =>
      obtain rfl := Option.some.inj done
      exact ⟨inRange_clamp sum, rfl, rfl, rfl, rfl⟩

/-- Decay moves the score toward the initial one and not past it. -/
theorem continues_of_decay {amount : Score} {now : Nat} {peer decayed : PeerInfo}
    (done : peer.decay amount = some decayed)
    : peer.Continues amount now decayed := by
  unfold decay at done
  split at done
  next =>
    obtain ⟨score, fits, rfl⟩ := Option.map_eq_some_iff.mp done
    obtain rfl := eq_of_checkedScore fits
    refine ⟨rfl, rfl, id, Or.inl rfl, fun positive range => ⟨?_, ?_⟩⟩
    · exact le_max_of_le_right (by decide)
    · exact max_le ((Int.sub_le_self _ positive).trans range.2) (by decide)
  next =>
    split at done
    next =>
      obtain ⟨score, fits, rfl⟩ := Option.map_eq_some_iff.mp done
      obtain rfl := eq_of_checkedScore fits
      refine ⟨rfl, rfl, id, Or.inl rfl, fun positive range => ⟨?_, ?_⟩⟩
      · exact le_min (range.1.trans (Int.le_add_of_nonneg_right positive)) (by decide)
      · exact (min_le_right _ _).trans (by decide)
    next =>
      obtain rfl := Option.some.inj done
      exact .refl amount now peer

end PeerInfo

namespace PeerManager

/-- What an operation that adds no peer does. -/
structure Step (before after : PeerManager) : Prop where
  config : after.config = before.config
  now : before.currentTick ≤ after.currentTick
  decayed : before.lastDecayTick ≤ before.currentTick → after.lastDecayTick ≤ after.currentTick
  entry
    : ∀ peerId new, after.peers.lookup peerId = some new →
        ∃ old,
          before.peers.lookup peerId = some old
          ∧ old.Continues before.config.decayAmount after.currentTick new
  bans : ∀ peerId, before.banned.lookup peerId = some 0 → after.banned.lookup peerId = some 0

/-- The entries are filed under their names and no activity lies in the future. -/
structure Consistent (manager : PeerManager) : Prop where
  filed : ∀ peerId peer, manager.peers.lookup peerId = some peer → peer.peerId = peerId
  active
    : ∀ peerId peer, manager.peers.lookup peerId = some peer →
        peer.lastActivityTick ≤ manager.currentTick
  decayed : manager.lastDecayTick ≤ manager.currentTick

/-- The numbers of peers and their scores keep to the limits. -/
structure Limited (manager : PeerManager) : Prop where
  total : manager.peerCount ≤ manager.config.maxPeers
  inbound : manager.inboundCount ≤ manager.config.maxInbound
  outbound : manager.outboundCount ≤ manager.config.maxOutbound
  inRange : ∀ peerId peer, manager.peers.lookup peerId = some peer → peer.InRange

/-- The highest number of peers in one direction. -/
def limit (config : PeerManagerConfig) : Direction → Nat
  | .inbound => config.maxInbound
  | .outbound => config.maxOutbound

-----------------------------------------------------------------------------------------
-- Steps
-----------------------------------------------------------------------------------------

theorem Step.refl (manager : PeerManager) : Step manager manager :=
  ⟨rfl, Nat.le_refl _, id, fun _ peer found => ⟨peer, found, .refl _ _ peer⟩, fun _ => id⟩

/-- Two steps at the same tick are one. -/
theorem Step.trans {before middle after : PeerManager} (first : Step before middle)
    (second : Step middle after) (sameTick : after.currentTick = middle.currentTick)
    : Step before after where
  config := second.config.trans first.config
  now := sameTick ▸ first.now
  decayed := second.decayed ∘ first.decayed
  entry := by
    intro peerId new found
    obtain ⟨middleInfo, found, later⟩ := second.entry peerId new found
    obtain ⟨old, found, earlier⟩ := first.entry peerId middleInfo found
    rw [first.config, sameTick] at later
    rw [sameTick]
    exact ⟨old, found, earlier.trans later⟩
  bans := fun peerId => second.bans peerId ∘ first.bans peerId

/-- A step leaves no peer in either direction that was not there. -/
theorem Step.directionCount_le {before after : PeerManager} (step : Step before after)
    (direction : Direction)
    : after.directionCount direction ≤ before.directionCount direction := by
  apply FinMap.count_le_count
  intro peerId passes
  obtain ⟨new, found, isDirection⟩ := (Option.any_eq_true _ _).mp passes
  obtain ⟨old, wasFound, continues⟩ := step.entry peerId new found
  rw [wasFound]
  simpa [continues.direction] using isDirection

theorem Step.peerCount_le {before after : PeerManager} (step : Step before after)
    : after.peerCount ≤ before.peerCount := by
  apply Finset.card_le_card
  intro peerId member
  obtain ⟨new, found⟩ := Finmap.mem_iff.mp (Finmap.mem_keys.mp member)
  obtain ⟨old, found, _⟩ := step.entry peerId new found
  exact Finmap.mem_keys.mpr (Finmap.mem_of_lookup_eq_some found)

theorem Consistent.step {before after : PeerManager} (consistent : before.Consistent)
    (step : Step before after)
    : after.Consistent where
  filed := by
    intro peerId new found
    obtain ⟨old, found, continues⟩ := step.entry peerId new found
    rw [continues.peerId, consistent.filed peerId old found]
  active := by
    intro peerId new found
    obtain ⟨old, found, continues⟩ := step.entry peerId new found
    rcases continues.active with same | recent
    · rw [same]
      exact (consistent.active peerId old found).trans step.now
    · rw [recent]
  decayed := step.decayed consistent.decayed

theorem Limited.step {before after : PeerManager} (limited : before.Limited)
    (step : Step before after) (positive : 0 ≤ before.config.decayAmount)
    : after.Limited where
  total := by
    rw [step.config]
    exact step.peerCount_le.trans limited.total
  inbound := by
    rw [step.config]
    exact (step.directionCount_le .inbound).trans limited.inbound
  outbound := by
    rw [step.config]
    exact (step.directionCount_le .outbound).trans limited.outbound
  inRange := by
    intro peerId new found
    obtain ⟨old, found, continues⟩ := step.entry peerId new found
    exact continues.inRange positive (limited.inRange peerId old found)

-----------------------------------------------------------------------------------------
-- The operations that add no peer
-----------------------------------------------------------------------------------------

theorem step_erase (peerId : String) (manager : PeerManager)
    : Step manager { manager with peers := manager.peers.erase peerId } where
  config := rfl
  now := Nat.le_refl _
  decayed := id
  entry := by
    intro other new found
    rw [FinMap.lookup_erase_eq] at found
    split at found
    next => simp at found
    next => exact ⟨new, found, .refl _ _ new⟩
  bans := fun _ => id

/-- Rewriting the entry of a connected peer is a step. -/
theorem step_insert {manager : PeerManager} {peerId : String} {old new : PeerInfo}
    (found : manager.peers.lookup peerId = some old)
    (continues : old.Continues manager.config.decayAmount manager.currentTick new)
    {banned : FinMap String Nat}
    (bans : ∀ other, manager.banned.lookup other = some 0 → banned.lookup other = some 0)
    : Step manager { manager with peers := manager.peers.insert peerId new, banned } where
  config := rfl
  now := Nat.le_refl _
  decayed := id
  entry := by
    intro other info isThere
    rw [FinMap.lookup_insert_eq] at isThere
    split at isThere
    next same =>
      obtain rfl := Option.some.inj isThere
      exact ⟨old, same ▸ found, continues⟩
    next => exact ⟨info, isThere, .refl _ _ info⟩
  bans := bans

/-- What recording an event does to a connected peer. -/
theorem recordEvent_eq_some {manager after : PeerManager} {peerId : String} {event : ScoreEvent}
    {peer : PeerInfo} (found : manager.peers.lookup peerId = some peer)
    (done : manager.recordEvent peerId event = some after)
    : ∃ adjusted pending banned,
        peer.adjust event manager.currentTick = some adjusted
        ∧ (pending = true
          ∨ banThreshold < adjusted.score ∧ pending = adjusted.disconnectPending)
        ∧ banned
          = (if adjusted.score ≤ banThreshold then manager.banned.insert peerId 0
              else manager.banned)
        ∧ after
          = { manager with
              peers := manager.peers.insert peerId { adjusted with disconnectPending := pending }
              banned } := by
  simp only [recordEvent, found] at done
  obtain ⟨adjusted, adjusts, rfl⟩ := Option.map_eq_some_iff.mp done
  split
  next banned =>
    exact ⟨adjusted, true, _, adjusts, Or.inl rfl, (if_pos banned).symm, rfl⟩
  next kept =>
    split
    next => exact ⟨adjusted, true, _, adjusts, Or.inl rfl, (if_neg kept).symm, rfl⟩
    next =>
      exact ⟨adjusted, adjusted.disconnectPending, _, adjusts, Or.inr ⟨not_le.mp kept, rfl⟩,
        (if_neg kept).symm, rfl⟩

theorem step_recordEvent {manager after : PeerManager} {peerId : String} {event : ScoreEvent}
    (done : manager.recordEvent peerId event = some after)
    : Step manager after ∧ after.currentTick = manager.currentTick := by
  cases found : manager.peers.lookup peerId with
  | none =>
      simp only [recordEvent, found] at done
      obtain rfl := Option.some.inj done
      exact ⟨.refl manager, rfl⟩
  | some peer =>
      obtain ⟨adjusted, pending, banned, adjusts, marks, rfl, rfl⟩ :=
        recordEvent_eq_some found done
      obtain ⟨range, recent, sameId, sameDirection, samePending⟩ :=
        PeerInfo.adjust_eq_some adjusts
      have continues
          : peer.Continues manager.config.decayAmount manager.currentTick
              { adjusted with disconnectPending := pending } := by
        refine ⟨sameId, sameDirection, ?_, Or.inr recent, fun _ _ => range⟩
        rcases marks with rfl | ⟨_, rfl⟩
        · exact fun _ => rfl
        · exact fun marked => samePending.trans marked
      refine ⟨step_insert found continues (fun other isBanned => ?_), rfl⟩
      split
      next =>
        rw [FinMap.lookup_insert_eq]
        split
        next => rfl
        next => exact isBanned
      next => exact isBanned

/-- Noting the status of a connected peer is a step. -/
theorem step_status {manager : PeerManager} {peerId : String} {peer : PeerInfo}
    (found : manager.peers.lookup peerId = some peer) (bestBlock chainId : UInt64)
    : Step manager
        { manager with
          peers :=
            manager.peers.insert peerId
              { peer with bestBlock, chainId, lastActivityTick := manager.currentTick } } := by
  have continues
      : peer.Continues manager.config.decayAmount manager.currentTick
          { peer with bestBlock, chainId, lastActivityTick := manager.currentTick } :=
    ⟨rfl, rfl, id, Or.inr rfl, fun _ => id⟩
  exact step_insert found continues (fun _ => id)

theorem step_updatePeerStatus {manager after : PeerManager} {peerId : String}
    {bestBlock chainId : UInt64}
    (done : manager.updatePeerStatus peerId bestBlock chainId = some after)
    : Step manager after := by
  cases found : manager.peers.lookup peerId with
  | none =>
      simp only [updatePeerStatus, found] at done
      obtain rfl := Option.some.inj done
      exact .refl manager
  | some peer =>
      simp only [updatePeerStatus, found] at done
      have updated := step_status found bestBlock chainId
      split at done
      next =>
        obtain ⟨recorded, sameTick⟩ := step_recordEvent done
        exact updated.trans recorded sameTick
      next =>
        obtain rfl := Option.some.inj done
        exact updated

theorem step_tick {manager after : PeerManager} {order : PeerOrder}
    (done : manager.tick order = some after)
    : Step manager after := by
  simp only [tick, decayScores, Option.bind_eq_bind, Option.bind_eq_some_iff] at done
  obtain ⟨now, counted, decayed, ⟨waited, _, decays⟩, rest⟩ := done
  have later : manager.currentTick ≤ now := by
    rw [eq_of_checkedWord counted]
    exact Nat.le_succ _
  obtain rfl := Option.some.inj rest
  have permanent (peerId : String) (isBanned : manager.banned.lookup peerId = some 0)
      : (manager.banned.filterValues (fun expiry => expiry = 0 || now < expiry)).lookup peerId
        = some 0 := by
    rw [FinMap.lookup_filterValues, isBanned]
    rfl
  split at decays
  next =>
    obtain ⟨peers, updates, same⟩ := Option.bind_eq_some_iff.mp decays
    obtain rfl := Option.some.inj same
    refine ⟨rfl, later, fun _ => Nat.le_refl _, fun peerId new found => ?_, permanent⟩
    rw [FinMap.lookup_tryModifyAll (order.nodup _) updates] at found
    split at found
    next =>
      obtain ⟨old, wasFound, isDecayed⟩ := Option.bind_eq_some_iff.mp found
      exact ⟨old, wasFound, PeerInfo.continues_of_decay isDecayed⟩
    next missing =>
      exact absurd ((order.mem_keys _ _).mpr (Finmap.mem_of_lookup_eq_some found)) missing
  next =>
    obtain rfl := Option.some.inj decays
    exact ⟨rfl, later, fun past => past.trans later,
      fun _ peer found => ⟨peer, found, .refl _ _ peer⟩, permanent⟩

-----------------------------------------------------------------------------------------
-- Connections
-----------------------------------------------------------------------------------------

theorem mem_walk {order : PeerOrder} {manager : PeerManager} {peer : PeerInfo}
    : peer ∈ manager.walk order ↔ ∃ peerId, manager.peers.lookup peerId = some peer := by
  unfold walk
  rw [List.mem_filterMap]
  constructor
  · rintro ⟨peerId, _, found⟩
    exact ⟨peerId, found⟩
  · rintro ⟨peerId, found⟩
    exact ⟨peerId, (order.mem_keys _ _).mpr (Finmap.mem_of_lookup_eq_some found), found⟩

theorem step_makeRoom (order : PeerOrder) (manager : PeerManager)
    : Step manager (manager.makeRoom order).2
      ∧ (manager.makeRoom order).2.currentTick = manager.currentTick := by
  unfold makeRoom
  split
  next =>
    unfold evictWorstPeer
    split
    next => exact ⟨.refl manager, rfl⟩
    next worst _ => exact ⟨step_erase worst.peerId manager, rfl⟩
  next => exact ⟨.refl manager, rfl⟩

/-- There is room for one more peer where room has been made: the evicted peer is filed under
its name.
-/
theorem peerCount_makeRoom {manager : PeerManager} (consistent : manager.Consistent)
    (total : manager.peerCount ≤ manager.config.maxPeers) {order : PeerOrder}
    (room : (manager.makeRoom order).1 = true)
    : (manager.makeRoom order).2.peerCount < manager.config.maxPeers := by
  unfold makeRoom at room ⊢
  split
  next full =>
    rw [if_pos full] at room
    unfold evictWorstPeer at room ⊢
    cases worst : (manager.walk order).minOn? PeerInfo.score with
    | none => simp [worst] at room
    | some peer =>
        obtain ⟨peerId, found⟩ := mem_walk.mp (List.minOn?_mem worst)
        have member : peer.peerId ∈ manager.peers.keys := by
          rw [consistent.filed peerId peer found]
          exact Finmap.mem_keys.mpr (Finmap.mem_of_lookup_eq_some found)
        have fewer := Finset.card_erase_lt_of_mem member
        change (manager.peers.erase peer.peerId).keys.card < _
        rw [Finmap.keys_erase]
        exact Nat.lt_of_lt_of_le fewer total
  next notFull => exact not_le.mp notFull

/-- A connection is rejected, or a peer that is not banned is added where there is room. -/
theorem onPeerConnected_cases (order : PeerOrder) (peerId : String) (direction : Direction)
    (manager : PeerManager)
    : ((manager.onPeerConnected order peerId direction).1 = false
        ∧ Step manager (manager.onPeerConnected order peerId direction).2)
      ∨ (manager.isBanned peerId = false
        ∧ (manager.makeRoom order).1 = true
        ∧ (manager.makeRoom order).2.directionCount direction < limit manager.config direction
        ∧ manager.onPeerConnected order peerId direction
          = (true,
              { (manager.makeRoom order).2 with
                peers :=
                  (manager.makeRoom order).2.peers.insert peerId
                    (.connected peerId direction manager.currentTick) })) := by
  obtain ⟨step, sameTick⟩ := step_makeRoom order manager
  unfold onPeerConnected
  split
  next => exact Or.inl ⟨rfl, .refl manager⟩
  next notBanned =>
    simp only
    split
    next => exact Or.inl ⟨rfl, step⟩
    next room =>
      rw [sameTick]
      have hasRoom : (manager.makeRoom order).1 = true := by simpa using room
      cases direction with
      | inbound =>
          simp only [decide_eq_true_eq]
          split
          next => exact Or.inl ⟨rfl, step⟩
          next below =>
            exact Or.inr ⟨Bool.eq_false_iff.mpr notBanned, hasRoom,
              step.config ▸ not_le.mp below, rfl⟩
      | outbound =>
          simp only [decide_eq_true_eq]
          split
          next => exact Or.inl ⟨rfl, step⟩
          next below =>
            exact Or.inr ⟨Bool.eq_false_iff.mpr notBanned, hasRoom,
              step.config ▸ not_le.mp below, rfl⟩

/-- The entry of a new peer is filed under its name and active now. -/
theorem Consistent.connect {manager : PeerManager} (consistent : manager.Consistent)
    (peerId : String) (direction : Direction)
    : Consistent
        { manager with
          peers :=
            manager.peers.insert peerId (.connected peerId direction manager.currentTick) } where
  filed := by
    intro other peer found
    rw [FinMap.lookup_insert_eq] at found
    split at found
    next same =>
      obtain rfl := Option.some.inj found
      exact same.symm
    next => exact consistent.filed other peer found
  active := by
    intro other peer found
    rw [FinMap.lookup_insert_eq] at found
    split at found
    next =>
      obtain rfl := Option.some.inj found
      exact Nat.le_refl _
    next => exact consistent.active other peer found
  decayed := consistent.decayed

/-- A new peer keeps to the limits when there is room for it in all and in its direction. -/
theorem Limited.connect {manager : PeerManager} (limited : manager.Limited) {peerId : String}
    {direction : Direction} (room : manager.peerCount < manager.config.maxPeers)
    (below : manager.directionCount direction < limit manager.config direction)
    : Limited
        { manager with
          peers :=
            manager.peers.insert peerId
              (.connected peerId direction manager.currentTick) } where
  total := by
    change (manager.peers.insert peerId _).keys.card ≤ _
    rw [FinMap.keys_insert]
    exact (Finset.card_insert_le _ _).trans room
  inbound := by
    have grows := FinMap.count_insert_le (fun peer => peer.direction = .inbound) manager.peers
      peerId (PeerInfo.connected peerId direction manager.currentTick)
    cases direction with
    | inbound => exact grows.trans below
    | outbound => exact grows.trans limited.inbound
  outbound := by
    have grows := FinMap.count_insert_le (fun peer => peer.direction = .outbound) manager.peers
      peerId (PeerInfo.connected peerId direction manager.currentTick)
    cases direction with
    | inbound => exact grows.trans limited.outbound
    | outbound => exact grows.trans below
  inRange := by
    intro other peer found
    rw [FinMap.lookup_insert_eq] at found
    split at found
    next =>
      obtain rfl := Option.some.inj found
      change -maxScore ≤ initialScore ∧ initialScore ≤ maxScore
      decide
    next => exact limited.inRange other peer found

-----------------------------------------------------------------------------------------
-- Runs
-----------------------------------------------------------------------------------------

/-- Every call is a step, or it adds a peer that is not banned after making room. -/
theorem call_cases {op : PeerOp} {manager after : PeerManager} {reply : Reply}
    (returns : call op manager = some (reply, after))
    : (Step manager after ∧ reply ≠ some true)
      ∨ ∃ order peerId direction,
          op = .onPeerConnected order peerId direction
          ∧ manager.isBanned peerId = false
          ∧ (manager.makeRoom order).1 = true
          ∧ (manager.makeRoom order).2.directionCount direction < limit manager.config direction
          ∧ after
            = { (manager.makeRoom order).2 with
                peers :=
                  (manager.makeRoom order).2.peers.insert peerId
                    (.connected peerId direction manager.currentTick) } := by
  cases op with
  | onPeerConnected order peerId direction =>
      change some (some (manager.onPeerConnected order peerId direction).1,
        (manager.onPeerConnected order peerId direction).2) = _ at returns
      obtain ⟨isReply, isAfter⟩ := Prod.mk.inj (Option.some.inj returns)
      rcases onPeerConnected_cases order peerId direction manager with
        ⟨rejected, step⟩ | ⟨notBanned, room, below, same⟩
      · rw [← isReply, ← isAfter, rejected]
        exact Or.inl ⟨step, by simp⟩
      · rw [← isAfter, same]
        exact Or.inr ⟨order, peerId, direction, rfl, notBanned, room, below, rfl⟩
  | onPeerDisconnected peerId =>
      obtain ⟨rfl, rfl⟩ := Prod.mk.inj (Option.some.inj returns)
      exact Or.inl ⟨step_erase peerId manager, by simp⟩
  | recordEvent peerId event =>
      obtain ⟨_, done, same⟩ := Option.map_eq_some_iff.mp returns
      obtain ⟨rfl, rfl⟩ := Prod.mk.inj same
      exact Or.inl ⟨(step_recordEvent done).1, by simp⟩
  | updatePeerStatus peerId bestBlock chainId =>
      obtain ⟨_, done, same⟩ := Option.map_eq_some_iff.mp returns
      obtain ⟨rfl, rfl⟩ := Prod.mk.inj same
      exact Or.inl ⟨step_updatePeerStatus done, by simp⟩
  | tick order =>
      obtain ⟨_, done, same⟩ := Option.map_eq_some_iff.mp returns
      obtain ⟨rfl, rfl⟩ := Prod.mk.inj same
      exact Or.inl ⟨step_tick done, by simp⟩

theorem config_call {op : PeerOp} {manager after : PeerManager} {reply : Reply}
    (returns : call op manager = some (reply, after))
    : after.config = manager.config := by
  rcases call_cases returns with ⟨step, _⟩ | ⟨order, _, _, _, _, _, _, rfl⟩
  · exact step.config
  · exact (step_makeRoom order manager).1.config

theorem Consistent.call {op : PeerOp} {manager after : PeerManager} {reply : Reply}
    (consistent : manager.Consistent) (returns : call op manager = some (reply, after))
    : after.Consistent := by
  rcases call_cases returns with ⟨step, _⟩ | ⟨order, peerId, direction, _, _, _, _, rfl⟩
  · exact consistent.step step
  · obtain ⟨step, sameTick⟩ := step_makeRoom order manager
    rw [← sameTick]
    exact (consistent.step step).connect peerId direction

theorem Limited.call {op : PeerOp} {manager after : PeerManager} {reply : Reply}
    (limited : manager.Limited) (consistent : manager.Consistent)
    (positive : 0 ≤ manager.config.decayAmount)
    (returns : call op manager = some (reply, after))
    : after.Limited := by
  rcases call_cases returns with ⟨step, _⟩ | ⟨order, peerId, direction, _, _, room, below, rfl⟩
  · exact limited.step step positive
  · obtain ⟨step, sameTick⟩ := step_makeRoom order manager
    have hasRoom := peerCount_makeRoom consistent limited.total room
    rw [← step.config] at hasRoom below
    rw [← sameTick]
    exact (limited.step step positive).connect hasRoom below

theorem consistent_new (config : PeerManagerConfig) : (new config).Consistent where
  filed := fun peerId _ found => by simp [new] at found
  active := fun peerId _ found => by simp [new] at found
  decayed := Nat.le_refl _

theorem limited_new (config : PeerManagerConfig) : (new config).Limited where
  total := Nat.zero_le _
  inbound := Nat.zero_le _
  outbound := Nat.zero_le _
  inRange := fun peerId _ found => by simp [new] at found

/-- Every run keeps the configuration and files its entries consistently. -/
theorem consistent_runAll (config : PeerManagerConfig) (ops : List PeerOp)
    : (CallTrace.final call ops (new config)).Consistent
      ∧ (CallTrace.final call ops (new config)).config = config := by
  apply CallTrace.final_invariant
    (fun manager : PeerManager => manager.Consistent ∧ manager.config = config)
  · rintro op manager reply after ⟨consistent, same⟩ returns
    exact ⟨consistent.call returns, (config_call returns).trans same⟩
  · exact ⟨consistent_new config, rfl⟩

/-- Where scores do not decay backwards, every run keeps to the limits. -/
theorem limited_runAll {config : PeerManagerConfig} (positive : 0 ≤ config.decayAmount)
    (ops : List PeerOp)
    : (CallTrace.final call ops (new config)).Limited := by
  have both
      : (CallTrace.final call ops (new config)).Limited
        ∧ (CallTrace.final call ops (new config)).Consistent
        ∧ (CallTrace.final call ops (new config)).config = config := by
    apply CallTrace.final_invariant
      (fun manager : PeerManager =>
        manager.Limited ∧ manager.Consistent ∧ manager.config = config)
    · rintro op manager reply after ⟨limited, consistent, same⟩ returns
      exact ⟨limited.call consistent (same ▸ positive) returns, consistent.call returns,
        (config_call returns).trans same⟩
    · exact ⟨limited_new config, consistent_new config, rfl⟩
  exact both.1

/-- The idle time of every peer can be computed, and the list names exactly the outdated ones. -/
theorem Consistent.peersToDisconnect {manager : PeerManager} (consistent : manager.Consistent)
    (order : PeerOrder)
    : ∃ listed,
        manager.peersToDisconnect order = some listed
        ∧ ∀ peerId,
          peerId ∈ listed
            ↔ ∃ peer,
                manager.peers.lookup peerId = some peer
                ∧ peer.outdated manager.currentTick manager.config.idleTimeoutTicks
                  = some true := by
  have answers (peer : PeerInfo) (member : peer ∈ manager.walk order)
      : (peer.outdated manager.currentTick manager.config.idleTimeoutTicks).isSome := by
    obtain ⟨peerId, found⟩ := mem_walk.mp member
    unfold PeerInfo.outdated checkedSub
    rw [if_pos (consistent.active peerId peer found)]
    split <;> rfl
  obtain ⟨kept, done, members⟩ := exists_tryFilter answers
  refine ⟨kept.map PeerInfo.peerId, by rw [PeerManager.peersToDisconnect, done]; rfl, ?_⟩
  intro peerId
  rw [List.mem_map]
  constructor
  · rintro ⟨peer, isKept, rfl⟩
    obtain ⟨member, outdated⟩ := (members peer).mp isKept
    obtain ⟨peerId, found⟩ := mem_walk.mp member
    exact ⟨peer, consistent.filed peerId peer found ▸ found, outdated⟩
  · rintro ⟨peer, found, outdated⟩
    exact ⟨peer, (members peer).mpr ⟨mem_walk.mpr ⟨peerId, found⟩, outdated⟩,
      consistent.filed peerId peer found⟩

-----------------------------------------------------------------------------------------
-- Calls that do not return
-----------------------------------------------------------------------------------------

/-- The tick counter or a message counter is at its highest value. -/
def Exhausted (manager : PeerManager) : Prop :=
  2 ^ 64 ≤ manager.currentTick + 1
    ∨ ∃ peerId peer,
        manager.peers.lookup peerId = some peer
        ∧ (2 ^ 64 ≤ peer.goodMessages + 1 ∨ 2 ^ 64 ≤ peer.badMessages + 1)

theorem le_of_checkedWord_eq_none {n : Nat} (overflows : checkedWord n = none) : 2 ^ 64 ≤ n := by
  unfold checkedWord at overflows
  split at overflows
  next => simp at overflows
  next big => exact not_lt.mp big

theorem checkedScore_of_small {n : Int} (low : -(2 ^ 63) ≤ n) (high : n < 2 ^ 63)
    : checkedScore n = some n :=
  if_pos ⟨low, high⟩

theorem scoreDelta_bounds (event : ScoreEvent)
    : (-100 : Int) ≤ event.scoreDelta ∧ (10 : Int) ≥ event.scoreDelta := by
  cases event <;> decide

/-- Adjusting a score that is in range overflows a message counter or nothing. -/
theorem adjust_eq_none {event : ScoreEvent} {now : Nat} {peer : PeerInfo}
    (range : peer.InRange) (stops : peer.adjust event now = none)
    : 2 ^ 64 ≤ peer.goodMessages + 1 ∨ 2 ^ 64 ≤ peer.badMessages + 1 := by
  have low : (-500 : Int) ≤ peer.score := range.1
  have high : (500 : Int) ≥ peer.score := range.2
  obtain ⟨least, most⟩ := scoreDelta_bounds event
  have fits : checkedScore (peer.score + event.scoreDelta)
      = some (peer.score + event.scoreDelta) :=
    checkedScore_of_small (by omega) (by omega)
  simp only [PeerInfo.adjust, fits, Option.bind_eq_bind, Option.bind_some] at stops
  split at stops
  next =>
    cases counted : checkedWord (peer.goodMessages + 1) with
    | none => exact Or.inl (le_of_checkedWord_eq_none counted)
    | some count => simp [counted] at stops
  next =>
    split at stops
    next =>
      cases counted : checkedWord (peer.badMessages + 1) with
      | none => exact Or.inr (le_of_checkedWord_eq_none counted)
      | some count => simp [counted] at stops
    next => simp at stops

/-- A score that is in range decays by a moderate amount without an overflow. -/
theorem exists_decay {amount : Score} (positive : 0 ≤ amount) (small : amount ≤ 2 ^ 62)
    {peer : PeerInfo} (range : peer.InRange)
    : ∃ decayed, peer.decay amount = some decayed := by
  have low : (-500 : Int) ≤ peer.score := range.1
  have high : (500 : Int) ≥ peer.score := range.2
  have atLeast : (0 : Int) ≤ amount := positive
  have atMost : (2 ^ 62 : Int) ≥ amount := small
  unfold PeerInfo.decay
  split
  next =>
    rw [checkedScore_of_small (by omega) (by omega)]
    exact ⟨_, rfl⟩
  next =>
    split
    next =>
      rw [checkedScore_of_small (by omega) (by omega)]
      exact ⟨_, rfl⟩
    next => exact ⟨peer, rfl⟩

theorem recordEvent_eq_none {manager : PeerManager} {peerId : String} {event : ScoreEvent}
    (limited : manager.Limited) (stops : manager.recordEvent peerId event = none)
    : ∃ peer,
        manager.peers.lookup peerId = some peer
        ∧ (2 ^ 64 ≤ peer.goodMessages + 1 ∨ 2 ^ 64 ≤ peer.badMessages + 1) := by
  cases found : manager.peers.lookup peerId with
  | none => simp [recordEvent, found] at stops
  | some peer =>
      simp only [recordEvent, found, Option.map_eq_none_iff] at stops
      exact ⟨peer, rfl, adjust_eq_none (limited.inRange peerId peer found) stops⟩

/-- Within the limits and with a moderate decay, a call returns unless a counter is exhausted. -/
theorem exhausted_of_call_eq_none {op : PeerOp} {manager : PeerManager}
    (limited : manager.Limited) (consistent : manager.Consistent)
    (positive : 0 ≤ manager.config.decayAmount) (small : manager.config.decayAmount ≤ 2 ^ 62)
    (stops : call op manager = none)
    : manager.Exhausted := by
  cases op with
  | onPeerConnected order peerId direction => simp [call] at stops
  | onPeerDisconnected peerId => simp [call] at stops
  | recordEvent peerId event =>
      obtain ⟨peer, found, full⟩ :=
        recordEvent_eq_none limited (Option.map_eq_none_iff.mp stops)
      exact Or.inr ⟨peerId, peer, found, full⟩
  | updatePeerStatus peerId bestBlock chainId =>
      have stops := Option.map_eq_none_iff.mp stops
      cases found : manager.peers.lookup peerId with
      | none => simp [updatePeerStatus, found] at stops
      | some peer =>
          simp only [updatePeerStatus, found] at stops
          split at stops
          next =>
            -- the entry has its message counters and its score from before the update
            obtain ⟨updated, isThere, full⟩ :=
              recordEvent_eq_none
                (limited.step (step_status found bestBlock chainId) positive) stops
            rw [Finmap.lookup_insert] at isThere
            obtain rfl := Option.some.inj isThere
            exact Or.inr ⟨peerId, peer, found, full⟩
          next => simp at stops
  | tick order =>
      have stops := Option.map_eq_none_iff.mp stops
      cases counted : checkedWord (manager.currentTick + 1) with
      | none => exact Or.inl (le_of_checkedWord_eq_none counted)
      | some now =>
          exfalso
          have later : manager.lastDecayTick ≤ now := by
            rw [eq_of_checkedWord counted]
            exact consistent.decayed.trans (Nat.le_succ _)
          obtain ⟨peers, decays⟩ :=
            FinMap.exists_tryModifyAll (order.nodup manager.peers)
              (fun peerId peer found =>
                exists_decay positive small (limited.inRange peerId peer found))
          simp only [tick, decayScores, checkedSub, counted, if_pos later, decays,
            Option.bind_eq_bind, Option.bind_some] at stops
          split at stops <;> simp at stops

-----------------------------------------------------------------------------------------
-- The limits of every run
-----------------------------------------------------------------------------------------

/-- In every state of every run the limits hold, no activity lies in the future, the idle times
can be computed, and only exhausted counters stop a call.
-/
theorem peerLimits_run (config : PeerManagerConfig) (positive : 0 ≤ config.decayAmount)
    (small : config.decayAmount ≤ 2 ^ 62) (ops : List PeerOp)
    : let manager := CallTrace.final call ops (new config)
      manager.peerCount ≤ config.maxPeers
        ∧ manager.inboundCount ≤ config.maxInbound
        ∧ manager.outboundCount ≤ config.maxOutbound
        ∧ (∀ peerId peer, manager.peers.lookup peerId = some peer →
            -500 ≤ peer.score
            ∧ peer.score ≤ 500
            ∧ peer.lastActivityTick ≤ manager.currentTick)
        ∧ (∀ order, (manager.peersToDisconnect order).isSome)
        ∧ ∀ op, call op manager = none → manager.Exhausted := by
  obtain ⟨consistent, same⟩ := consistent_runAll config ops
  have limited := limited_runAll positive ops
  simp only
  generalize CallTrace.final call ops (new config) = manager at consistent same limited ⊢
  subst same
  refine ⟨limited.total, limited.inbound, limited.outbound, ?_, ?_, ?_⟩
  · intro peerId peer found
    obtain ⟨low, high⟩ := limited.inRange peerId peer found
    exact ⟨low, high, consistent.active peerId peer found⟩
  · intro order
    obtain ⟨listed, done, _⟩ := consistent.peersToDisconnect order
    rw [done]
    rfl
  · intro op stops
    exact exhausted_of_call_eq_none limited consistent positive small stops

-----------------------------------------------------------------------------------------
-- A walk by name
-----------------------------------------------------------------------------------------

/-- The letters as digits. -/
def textRank : List Char → Nat
  | [] => 0
  | letter :: rest => letter.toNat + 1 + 2 ^ 33 * textRank rest

theorem textRank_injective : textRank.Injective := by
  intro left right same
  induction left generalizing right with
  | nil =>
      cases right with
      | nil => rfl
      | cons letter rest =>
          simp only [textRank] at same
          omega
  | cons letter rest ih =>
      cases right with
      | nil =>
          simp only [textRank] at same
          omega
      | cons other more =>
          have small := letter.val.toNat_lt
          have otherSmall := other.val.toNat_lt
          simp only [textRank, Char.toNat] at same
          have sameLetter : letter.val.toNat = other.val.toNat := by omega
          have sameRest : textRank rest = textRank more := by omega
          rw [Char.ext (UInt32.toNat_inj.mp sameLetter), ih sameRest]

/-- The peers from the lowest to the highest name. -/
def byName : PeerOrder :=
  FinMap.ascending (fun name => textRank name.toList)
    (textRank_injective.comp fun _ _ => String.toList_injective)

/-- A run in which the second peer takes the place of the first. -/
def replacingRun : List PeerOp :=
  [ .onPeerConnected byName "peer1" .inbound
  , .tick byName
  , .recordEvent "peer1" .invalidBlock
  , .onPeerConnected byName "peer2" .outbound
  , .tick byName ]

/-- Room for one peer. -/
def singlePeer : PeerManagerConfig :=
  { maxPeers := 1
    maxInbound := 1
    maxOutbound := 1
    idleTimeoutTicks := 300
    decayIntervalTicks := 1
    decayAmount := 5
    chainId := 27181 }

theorem peerLimits_run_replacing
    : let manager := CallTrace.final call replacingRun (new singlePeer)
      manager.peerCount ≤ 1
        ∧ manager.inboundCount ≤ 1
        ∧ manager.outboundCount ≤ 1
        ∧ (∀ peerId peer, manager.peers.lookup peerId = some peer →
            -500 ≤ peer.score
            ∧ peer.score ≤ 500
            ∧ peer.lastActivityTick ≤ manager.currentTick)
        ∧ (∀ order, (manager.peersToDisconnect order).isSome)
        ∧ ∀ op, call op manager = none → manager.Exhausted :=
  peerLimits_run singlePeer (by decide) (by decide) replacingRun

end PeerManager

end VeloChain
