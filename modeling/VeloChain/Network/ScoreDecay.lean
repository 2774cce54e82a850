import VeloChain.Network.PeerLimits

/-! The decay of scores in closed form.
A peer that nothing happens to comes nearer to the initial score by the same amount at each
decay, and the decays are one interval apart from the last one on.
-/

namespace VeloChain

/-- The operation is about this peer. -/
def PeerOp.Concerns : PeerOp → String → Prop
  | .onPeerConnected _ about _, peerId => peerId = about
  | .onPeerDisconnected about, peerId => peerId = about
  | .recordEvent about _, peerId => peerId = about
  | .updatePeerStatus about _ _, peerId => peerId = about
  | .tick _, _ => False

def PeerOp.isTick : PeerOp → Bool
  | .tick _ => true
  | _ => false

namespace PeerInfo

/-- How far a score is from the initial one. -/
def distance (peer : PeerInfo) : Int := (peer.score - initialScore).natAbs

/-- Going down to a target by a step, and no further. -/
theorem natAbs_max_sub {score step target : Int} (above : target < score)
    : ((max (score - step) target - target).natAbs : Int)
      = max 0 ((score - target).natAbs - step) := by
  omega

/-- Going up to a target by a step, and no further. -/
theorem natAbs_min_add {score step target : Int} (below : score < target)
    : ((min (score + step) target - target).natAbs : Int)
      = max 0 ((score - target).natAbs - step) := by
  omega

/-- A score has come nearer by a number of decays, has stopped at the initial score and has
not passed it.
-/
structure Approaches (amount : Score) (decays : Nat) (old new : PeerInfo) : Prop where
  nearer : new.distance = max 0 (old.distance - amount * decays)
  above : initialScore ≤ old.score → initialScore ≤ new.score
  below : old.score ≤ initialScore → new.score ≤ initialScore

variable {amount : Score}

theorem Approaches.refl (amount : Score) (peer : PeerInfo) : Approaches amount 0 peer peer := by
  refine ⟨?_, id, id⟩
  rw [Int.natCast_zero, Int.mul_zero, Int.sub_zero]
  exact (max_eq_right (Int.natCast_nonneg _)).symm

/-- A distance that shrinks by some steps and then by more shrinks by all of them. -/
theorem Approaches.trans {first second : Nat} {old middle new : PeerInfo}
    (positive : 0 ≤ amount) (earlier : Approaches amount first old middle)
    (later : Approaches amount second middle new)
    : Approaches amount (first + second) old new := by
  refine ⟨?_, later.above ∘ earlier.above, later.below ∘ earlier.below⟩
  have further : (0 : Int) ≤ amount * second := Int.mul_nonneg positive (Int.natCast_nonneg second)
  have all : amount * ↑(first + second) = amount * first + amount * second := by
    rw [Int.natCast_add, Int.mul_add]
  rw [later.nearer, earlier.nearer, all]
  omega

/-- One decay comes nearer by its amount. -/
theorem approaches_decay (positive : 0 ≤ amount) {peer decayed : PeerInfo}
    (done : peer.decay amount = some decayed)
    : Approaches amount 1 peer decayed := by
  have once : amount * (1 : Nat) = amount := Int.mul_one amount
  unfold decay at done
  split at done
  next above =>
    obtain ⟨score, fits, rfl⟩ := Option.map_eq_some_iff.mp done
    obtain rfl := eq_of_checkedScore fits
    refine ⟨?_, fun _ => le_max_right _ _, fun within => absurd above (not_lt.mpr within)⟩
    rw [once]
    exact natAbs_max_sub above
  next =>
    split at done
    next below =>
      obtain ⟨score, fits, rfl⟩ := Option.map_eq_some_iff.mp done
      obtain rfl := eq_of_checkedScore fits
      refine ⟨?_, fun within => absurd below (not_lt.mpr within), fun _ => min_le_right _ _⟩
      rw [once]
      exact natAbs_min_add below
    next notAbove notBelow =>
      obtain rfl := Option.some.inj done
      have atTarget : peer.score = initialScore :=
        le_antisymm (not_lt.mp notAbove) (not_lt.mp notBelow)
      refine ⟨?_, id, id⟩
      rw [once, distance, atTarget, Int.sub_self]
      exact (max_eq_left (Int.sub_nonpos_of_le positive)).symm

end PeerInfo

namespace PeerManager

/-- The last decay is less than an interval ago. -/
structure Phased (manager : PeerManager) : Prop where
  past : manager.lastDecayTick ≤ manager.currentTick
  recent
    : manager.currentTick - manager.lastDecayTick < max 1 manager.config.decayIntervalTicks

/-- The number of ticks of a run that returned. -/
def ticks (ops : List PeerOp) (manager : PeerManager) : Nat :=
  (CallTrace.calls call ops manager).countP (fun turn => turn.op.isTick)

/-- How many decays fall into the next `ticks` ticks. -/
def decaysWithin (ticks : Nat) (manager : PeerManager) : Nat :=
  (manager.currentTick - manager.lastDecayTick + ticks) / max 1 manager.config.decayIntervalTicks

-----------------------------------------------------------------------------------------
-- What one operation does to a peer it is not about
-----------------------------------------------------------------------------------------

variable {manager after : PeerManager} {peerId : String}

/-- A tick advances the counter; when the interval is over it notes that and decays every
peer.
-/
theorem tick_cases {order : PeerOrder} (past : manager.lastDecayTick ≤ manager.currentTick)
    (done : manager.tick order = some after)
    : after.config = manager.config
      ∧ after.currentTick = manager.currentTick + 1
      ∧ (∀ peerId ∈ manager.peers, peerId ∈ after.peers)
      ∧ ((manager.config.decayIntervalTicks ≤ manager.currentTick - manager.lastDecayTick + 1
          ∧ after.lastDecayTick = manager.currentTick + 1
          ∧ ∀ peerId,
              after.peers.lookup peerId
              = (manager.peers.lookup peerId).bind
                  (PeerInfo.decay manager.config.decayAmount))
        ∨ manager.currentTick - manager.lastDecayTick + 1 < manager.config.decayIntervalTicks
          ∧ after.lastDecayTick = manager.lastDecayTick
          ∧ after.peers = manager.peers) := by
  simp only [tick, decayScores, Option.bind_eq_bind, Option.bind_eq_some_iff] at done
  obtain ⟨now, counted, decayed, ⟨waited, elapsed, decays⟩, rest⟩ := done
  obtain rfl := eq_of_checkedWord counted
  have later : manager.lastDecayTick ≤ manager.currentTick + 1 := by omega
  rw [checkedSub, if_pos later] at elapsed
  obtain rfl := Option.some.inj elapsed
  obtain rfl := Option.some.inj rest
  split at decays
  next due =>
    obtain ⟨peers, updates, same⟩ := Option.bind_eq_some_iff.mp decays
    obtain rfl := Option.some.inj same
    refine ⟨rfl, rfl, fun _ => FinMap.mem_tryModifyAll updates,
      Or.inl ⟨by omega, rfl, fun peerId => ?_⟩⟩
    rw [FinMap.lookup_tryModifyAll (order.nodup _) updates]
    split
    next => rfl
    next missing =>
      have absent := Finmap.lookup_eq_none.mpr (mt (order.mem_keys _ _).mpr missing)
      rw [absent, Option.bind_none]
  next early =>
    obtain rfl := Option.some.inj decays
    exact ⟨rfl, rfl, fun _ => id, Or.inr ⟨by omega, rfl, rfl⟩⟩

/-- The clocks and the entries of all peers that are not concerned are as they were, or the
peers have gone.
-/
structure LeavesAlone (concerned : String → Prop) (manager after : PeerManager) : Prop where
  config : after.config = manager.config
  currentTick : after.currentTick = manager.currentTick
  lastDecayTick : after.lastDecayTick = manager.lastDecayTick
  entry
    : ∀ peerId, ¬ concerned peerId →
        ∀ peer, after.peers.lookup peerId = some peer → manager.peers.lookup peerId = some peer

theorem LeavesAlone.refl (concerned : String → Prop) (manager : PeerManager)
    : LeavesAlone concerned manager manager :=
  ⟨rfl, rfl, rfl, fun _ _ _ => id⟩

theorem leavesAlone_erase (concerned : String → Prop) (gone : String)
    : LeavesAlone concerned manager { manager with peers := manager.peers.erase gone } := by
  refine ⟨rfl, rfl, rfl, fun peerId _ peer found => ?_⟩
  rw [FinMap.lookup_erase_eq] at found
  split at found
  next => simp at found
  next => exact found

/-- The entry of the peer that is concerned is written. -/
theorem LeavesAlone.insert {about : String} (leaves : LeavesAlone (· = about) manager after)
    (info : PeerInfo) (banned : FinMap String Nat)
    : LeavesAlone (· = about) manager
        { after with peers := after.peers.insert about info, banned } := by
  refine ⟨leaves.config, leaves.currentTick, leaves.lastDecayTick, ?_⟩
  intro peerId different peer found
  rw [FinMap.lookup_insert_eq, if_neg different] at found
  exact leaves.entry peerId different peer found

theorem leavesAlone_makeRoom (concerned : String → Prop) (order : PeerOrder)
    : LeavesAlone concerned manager (manager.makeRoom order).2 := by
  unfold makeRoom
  split
  next =>
    unfold evictWorstPeer
    split
    next => exact .refl concerned manager
    next worst _ => exact leavesAlone_erase concerned worst.peerId
  next => exact .refl concerned manager

theorem leavesAlone_onPeerConnected {order : PeerOrder} {about : String}
    {direction : Direction}
    : LeavesAlone (· = about) manager (manager.onPeerConnected order about direction).2 := by
  unfold onPeerConnected
  split
  next => exact .refl _ manager
  next =>
    have room := @leavesAlone_makeRoom manager (· = about) order
    simp only
    split
    next => exact room
    next =>
      cases direction with
      | inbound =>
          simp only
          split
          next => exact room
          next => exact room.insert _ _
      | outbound =>
          simp only
          split
          next => exact room
          next => exact room.insert _ _

theorem leavesAlone_recordEvent {about : String} {event : ScoreEvent}
    (done : manager.recordEvent about event = some after)
    : LeavesAlone (· = about) manager after := by
  cases found : manager.peers.lookup about with
  | none =>
      simp only [recordEvent, found] at done
      obtain rfl := Option.some.inj done
      exact .refl _ manager
  | some peer =>
      obtain ⟨_, _, _, _, _, _, rfl⟩ := recordEvent_eq_some found done
      exact (LeavesAlone.refl _ manager).insert _ _

theorem leavesAlone_updatePeerStatus {about : String} {bestBlock chainId : UInt64}
    (done : manager.updatePeerStatus about bestBlock chainId = some after)
    : LeavesAlone (· = about) manager after := by
  cases found : manager.peers.lookup about with
  | none =>
      simp only [updatePeerStatus, found] at done
      obtain rfl := Option.some.inj done
      exact .refl _ manager
  | some peer =>
      simp only [updatePeerStatus, found] at done
      have updated := (LeavesAlone.refl (· = about) manager).insert
        { peer with bestBlock, chainId, lastActivityTick := manager.currentTick } manager.banned
      split at done
      next =>
        have recorded := leavesAlone_recordEvent done
        exact ⟨recorded.config.trans updated.config,
          recorded.currentTick.trans updated.currentTick,
          recorded.lastDecayTick.trans updated.lastDecayTick,
          fun peerId different peer found =>
            updated.entry peerId different peer (recorded.entry peerId different peer found)⟩
      next =>
        obtain rfl := Option.some.inj done
        exact updated

/-- An operation other than a tick leaves the peers alone that it is not about. -/
theorem leavesAlone_call {op : PeerOp} (noTick : op.isTick = false) {reply : Reply}
    (returns : call op manager = some (reply, after))
    : LeavesAlone op.Concerns manager after := by
  cases op with
  | onPeerConnected order about direction =>
      obtain ⟨_, rfl⟩ := Prod.mk.inj (Option.some.inj returns)
      exact leavesAlone_onPeerConnected
  | onPeerDisconnected about =>
      obtain ⟨_, rfl⟩ := Prod.mk.inj (Option.some.inj returns)
      exact leavesAlone_erase _ about
  | recordEvent about event =>
      obtain ⟨_, done, same⟩ := Option.map_eq_some_iff.mp returns
      obtain ⟨_, rfl⟩ := Prod.mk.inj same
      exact leavesAlone_recordEvent done
  | updatePeerStatus about bestBlock chainId =>
      obtain ⟨_, done, same⟩ := Option.map_eq_some_iff.mp returns
      obtain ⟨_, rfl⟩ := Prod.mk.inj same
      exact leavesAlone_updatePeerStatus done
  | tick order => simp [PeerOp.isTick] at noTick

/-- A call is a tick or leaves the peers alone that it is not about. -/
theorem call_tick_or_leavesAlone {op : PeerOp} {reply : Reply}
    (returns : call op manager = some (reply, after))
    : (∃ order, op.isTick = true ∧ manager.tick order = some after)
      ∨ op.isTick = false ∧ LeavesAlone op.Concerns manager after := by
  cases isTick : op.isTick with
  | false => exact Or.inr ⟨rfl, leavesAlone_call isTick returns⟩
  | true =>
      cases op with
      | tick order =>
          obtain ⟨_, done, same⟩ := Option.map_eq_some_iff.mp returns
          obtain ⟨_, rfl⟩ := Prod.mk.inj same
          exact Or.inl ⟨order, rfl, done⟩
      | _ => simp [PeerOp.isTick] at isTick

-----------------------------------------------------------------------------------------
-- The phase
-----------------------------------------------------------------------------------------

theorem Phased.tick {order : PeerOrder} (phased : manager.Phased)
    (done : manager.tick order = some after)
    : after.Phased := by
  obtain ⟨config, now, _, ⟨_, noted, _⟩ | ⟨early, kept, _⟩⟩ := tick_cases phased.past done
  · exact ⟨by rw [now, noted], by rw [now, noted, Nat.sub_self]; omega⟩
  · have past := phased.past
    refine ⟨by omega, ?_⟩
    rw [now, kept, config]
    omega

theorem LeavesAlone.phased {concerned : String → Prop}
    (leaves : LeavesAlone concerned manager after) (phased : manager.Phased)
    : after.Phased := by
  refine ⟨?_, ?_⟩
  · rw [leaves.lastDecayTick, leaves.currentTick]
    exact phased.past
  · rw [leaves.lastDecayTick, leaves.currentTick, leaves.config]
    exact phased.recent

/-- Only ticks move the clocks. -/
theorem Phased.call {op : PeerOp} {reply : Reply} (phased : manager.Phased)
    (returns : call op manager = some (reply, after))
    : after.Phased := by
  rcases call_tick_or_leavesAlone returns with ⟨_, _, done⟩ | ⟨_, leaves⟩
  · exact phased.tick done
  · exact leaves.phased phased

theorem phased_runAll (config : PeerManagerConfig) (ops : List PeerOp)
    : (CallTrace.final PeerManager.call ops (new config)).Phased :=
  CallTrace.final_invariant (fun manager : PeerManager => manager.Phased)
    (fun _ _ _ _ phased returns => phased.call returns)
    ⟨Nat.le_refl _, by simp [new]⟩

-----------------------------------------------------------------------------------------
-- Runs
-----------------------------------------------------------------------------------------

/-- Before the interval is over no decay is due, and at its end one is. -/
theorem decaysWithin_zero (phased : manager.Phased) : manager.decaysWithin 0 = 0 :=
  Nat.div_eq_of_lt phased.recent

/-- The decays a tick makes: one when it notes a decay. -/
def decaysOfTick (after : PeerManager) : Nat :=
  if after.lastDecayTick = after.currentTick then 1 else 0

/-- A tick makes the first one of the decays that were to come, or none. -/
theorem decaysWithin_tick {order : PeerOrder} (phased : manager.Phased)
    (done : manager.tick order = some after) (ticks : Nat)
    : manager.decaysWithin (ticks + 1) = after.decaysOfTick + after.decaysWithin ticks := by
  have recent := phased.recent
  unfold decaysWithin decaysOfTick
  obtain ⟨config, now, _, ⟨due, noted, _⟩ | ⟨early, kept, _⟩⟩ := tick_cases phased.past done
  · have whole
        : manager.currentTick - manager.lastDecayTick + (ticks + 1)
          = ticks + max 1 manager.config.decayIntervalTicks := by
      omega
    rw [whole, Nat.add_div_right _ (by omega), noted, now, Nat.sub_self, Nat.zero_add, config,
      if_pos rfl, Nat.add_comm 1]
  · have past := phased.past
    have onward
        : manager.currentTick - manager.lastDecayTick + (ticks + 1)
          = manager.currentTick + 1 - manager.lastDecayTick + ticks := by
      omega
    rw [onward, now, kept, config, if_neg (by omega), Nat.zero_add]

/-- A peer comes nearer by the decays of a tick. -/
theorem approaches_tick {order : PeerOrder} (phased : manager.Phased)
    (positive : 0 ≤ manager.config.decayAmount) (done : manager.tick order = some after)
    {later : PeerInfo} (found : after.peers.lookup peerId = some later)
    : ∃ peer,
        manager.peers.lookup peerId = some peer
        ∧ PeerInfo.Approaches manager.config.decayAmount after.decaysOfTick peer later := by
  unfold decaysOfTick
  obtain ⟨_, now, _, ⟨_, noted, decays⟩ | ⟨early, kept, same⟩⟩ := tick_cases phased.past done
  · rw [decays] at found
    obtain ⟨peer, isThere, decayed⟩ := Option.bind_eq_some_iff.mp found
    refine ⟨peer, isThere, ?_⟩
    rw [noted, now, if_pos rfl]
    exact PeerInfo.approaches_decay positive decayed
  · have past := phased.past
    refine ⟨later, same ▸ found, ?_⟩
    rw [if_neg (by omega)]
    exact .refl _ later

theorem ticks_cons_some {op : PeerOp} {rest : List PeerOp} {reply : Reply}
    (returns : call op manager = some (reply, after))
    : ticks (op :: rest) manager = ticks rest after + if op.isTick then 1 else 0 := by
  rw [ticks, CallTrace.calls_cons_some returns, List.countP_cons]
  rfl

/-- By induction on the operations: a tick makes at most one of the decays to come, and any
other operation leaves peer and clocks alone.
-/
theorem approaches_of_quiet {more : List PeerOp} (phased : manager.Phased)
    (positive : 0 ≤ manager.config.decayAmount) (quiet : ∀ op ∈ more, ¬ op.Concerns peerId)
    {later : PeerInfo}
    (found : (CallTrace.final call more manager).peers.lookup peerId = some later)
    : ∃ peer,
        manager.peers.lookup peerId = some peer
        ∧ PeerInfo.Approaches manager.config.decayAmount
            (manager.decaysWithin (ticks more manager)) peer later := by
  induction more generalizing manager with
  | nil =>
      refine ⟨later, found, ?_⟩
      rw [ticks, CallTrace.calls_nil, List.countP_nil, decaysWithin_zero phased]
      exact .refl _ later
  | cons op rest ih =>
      obtain ⟨quietHere, quietLater⟩ := List.forall_mem_cons.mp quiet
      cases returns : call op manager with
      | none =>
          rw [CallTrace.final_cons_none returns] at found
          refine ⟨later, found, ?_⟩
          rw [ticks, CallTrace.calls_cons_none returns, List.countP_nil,
            decaysWithin_zero phased]
          exact .refl _ later
      | some out =>
          obtain ⟨reply, next⟩ := out
          rw [CallTrace.final_cons_some returns] at found
          obtain ⟨middle, isThere, approaches⟩ :=
            ih (phased.call returns) (config_call returns ▸ positive) quietLater found
          rw [config_call returns] at approaches
          rw [ticks_cons_some returns]
          rcases call_tick_or_leavesAlone returns with ⟨order, isTick, done⟩ | ⟨noTick, leaves⟩
          · obtain ⟨peer, wasThere, decays⟩ := approaches_tick phased positive done isThere
            refine ⟨peer, wasThere, ?_⟩
            rw [if_pos isTick, decaysWithin_tick phased done]
            exact decays.trans positive approaches
          · refine ⟨middle, leaves.entry peerId quietHere middle isThere, ?_⟩
            rw [if_neg (by simp [noTick]), Nat.add_zero]
            rwa [decaysWithin, leaves.currentTick, leaves.lastDecayTick, leaves.config]
              at approaches

-----------------------------------------------------------------------------------------
-- The closed form
-----------------------------------------------------------------------------------------

/-- A tick returns where the counter and the amount leave room. -/
theorem exists_tick (phased : manager.Phased) (limited : manager.Limited)
    (positive : 0 ≤ manager.config.decayAmount) (small : manager.config.decayAmount ≤ 2 ^ 62)
    (room : manager.currentTick + 1 < 2 ^ 64) (order : PeerOrder)
    : ∃ after, manager.tick order = some after := by
  obtain ⟨peers, decays⟩ :=
    FinMap.exists_tryModifyAll (order.nodup manager.peers)
      (fun peerId peer found =>
        exists_decay positive small (limited.inRange peerId peer found))
  have past : manager.lastDecayTick ≤ manager.currentTick + 1 := phased.past.trans (Nat.le_succ _)
  simp only [tick, decayScores, checkedWord, checkedSub, if_pos room, if_pos past, decays,
    Option.bind_eq_bind, Option.bind_some]
  split
  next => exact ⟨_, rfl⟩
  next => exact ⟨_, rfl⟩

/-- Where the counter and the amount leave room, every tick of a run of ticks returns, and the
run disconnects nobody.
-/
theorem ticks_of_ticks {more : List PeerOp} (onlyTicks : ∀ op ∈ more, op.isTick = true)
    (phased : manager.Phased)
    : (∀ peerId ∈ manager.peers, peerId ∈ (CallTrace.final call more manager).peers)
      ∧ (manager.Limited → 0 ≤ manager.config.decayAmount
          → manager.config.decayAmount ≤ 2 ^ 62
          → manager.currentTick + more.length < 2 ^ 64
          → ticks more manager = more.length) := by
  induction more generalizing manager with
  | nil => exact ⟨fun _ => id, fun _ _ _ _ => rfl⟩
  | cons op rest ih =>
      obtain ⟨isTick, later⟩ := List.forall_mem_cons.mp onlyTicks
      obtain ⟨order, rfl⟩ : ∃ order, op = .tick order := by
        cases op with
        | tick order => exact ⟨order, rfl⟩
        | _ => simp [PeerOp.isTick] at isTick
      cases done : manager.tick order with
      | none =>
          have stops : call (.tick order) manager = none := by
            simp only [call, done, Option.map_none]
          rw [CallTrace.final_cons_none stops]
          refine ⟨fun _ => id, fun limited positive small room => ?_⟩
          rw [List.length_cons] at room
          obtain ⟨after, returns⟩ := exists_tick phased limited positive small (by omega) order
          simp [done] at returns
      | some next =>
          have returns : call (.tick order) manager = some (none, next) := by
            simp only [call, done, Option.map_some]
          obtain ⟨config, now, kept, _⟩ := tick_cases phased.past done
          obtain ⟨stays, counts⟩ := ih later (phased.tick done)
          rw [CallTrace.final_cons_some returns, ticks_cons_some returns]
          refine ⟨fun peerId member => stays peerId (kept peerId member), ?_⟩
          intro limited positive small room
          rw [List.length_cons] at room
          rw [counts (limited.step (step_tick done) positive) (config ▸ positive)
            (config ▸ small) (by omega), if_pos isTick, List.length_cons]

/-- For every connected peer of every state that a run reaches, and any later operations that
are not about it: as long as it is connected, its distance from the initial score has shrunk by
one amount for each decay that falls into the ticks, to no less than nothing, and the score has
not changed sides. Mere ticks leave it connected, and return where no number overflows.
-/
theorem scoreDecay_run {config : PeerManagerConfig} (positive : 0 ≤ config.decayAmount)
    (ops more : List PeerOp) {peerId : String} (quiet : ∀ op ∈ more, ¬ op.Concerns peerId)
    {peer : PeerInfo}
    (found : (CallTrace.final call ops (new config)).peers.lookup peerId = some peer)
    : let manager := CallTrace.final call ops (new config)
      let after := CallTrace.final call more manager
      let elapsed := manager.currentTick - manager.lastDecayTick
      let decays := (elapsed + ticks more manager) / max 1 config.decayIntervalTicks
      (∀ later, after.peers.lookup peerId = some later →
          later.distance = max 0 (peer.distance - config.decayAmount * decays)
          ∧ (initialScore ≤ peer.score → initialScore ≤ later.score)
          ∧ (peer.score ≤ initialScore → later.score ≤ initialScore))
        ∧ ((∀ op ∈ more, op.isTick = true) →
          peerId ∈ after.peers
          ∧ (config.decayAmount ≤ 2 ^ 62 → manager.currentTick + more.length < 2 ^ 64
            → ticks more manager = more.length)) := by
  intro manager after elapsed decays
  have phased := phased_runAll config ops
  have sameConfig : manager.config = config := (consistent_runAll config ops).2
  refine ⟨fun later isThere => ?_, fun onlyTicks => ?_⟩
  · obtain ⟨start, wasThere, approaches⟩ :=
      approaches_of_quiet phased (sameConfig.symm ▸ positive) quiet isThere
    obtain rfl := Option.some.inj (found.symm.trans wasThere)
    rw [decaysWithin, sameConfig] at approaches
    exact ⟨approaches.nearer, approaches.above, approaches.below⟩
  · obtain ⟨stays, counts⟩ := ticks_of_ticks onlyTicks phased
    refine ⟨stays peerId (Finmap.mem_of_lookup_eq_some found), fun small room => ?_⟩
    exact counts (limited_runAll positive ops) (sameConfig.symm ▸ positive)
      (sameConfig.symm ▸ small) room

/-- Scores come nearer by 30 at every second tick. -/
def decaying : PeerManagerConfig :=
  { singlePeer with decayIntervalTicks := 2, decayAmount := 30 }

/-- An invalid block costs a peer 50, of which three ticks that begin within an interval give
back all.
-/
theorem scoreDecay_run_invalidBlock
    : let manager :=
        CallTrace.final call
          [.onPeerConnected byName "peer1" .inbound, .tick byName,
            .recordEvent "peer1" .invalidBlock]
          (new decaying)
      let more : List PeerOp :=
        [.tick byName, .onPeerDisconnected "peer2", .tick byName, .tick byName]
      let after := CallTrace.final call more manager
      let elapsed := manager.currentTick - manager.lastDecayTick
      let decays := (elapsed + ticks more manager) / max 1 decaying.decayIntervalTicks
      (∀ later, after.peers.lookup "peer1" = some later →
          later.distance = max 0 (50 - decaying.decayAmount * decays)
          ∧ ((100 : Score) ≤ 50 → initialScore ≤ later.score)
          ∧ ((50 : Score) ≤ 100 → later.score ≤ initialScore))
        ∧ ((∀ op ∈ more, op.isTick = true) →
          "peer1" ∈ after.peers
          ∧ (decaying.decayAmount ≤ 2 ^ 62 → manager.currentTick + more.length < 2 ^ 64
            → ticks more manager = more.length)) :=
  @scoreDecay_run decaying (by decide)
    [.onPeerConnected byName "peer1" .inbound, .tick byName, .recordEvent "peer1" .invalidBlock]
    [.tick byName, .onPeerDisconnected "peer2", .tick byName, .tick byName] "peer1"
    (by simp [PeerOp.Concerns])
    { PeerInfo.connected "peer1" .inbound 0 with
      score := 50, lastActivityTick := 1, badMessages := 1 }
    rfl

end PeerManager

end VeloChain
