import VeloChain.Network.PeerLimits

/-! Bans are permanent.
Recording an event that brings a score to the ban threshold writes a ban without an end and
marks the entry. No operation removes such a ban or the mark, and a banned peer is not let in
again, so a peer that is both banned and marked stays so.
-/

namespace VeloChain

/-- The operations that record an event of a peer: a status does so when it tells of another
chain.
-/
def PeerOp.Records (config : PeerManagerConfig) (peerId : String) : PeerOp → Prop
  | .recordEvent other _ => other = peerId
  | .updatePeerStatus other _ chainId =>
      other = peerId ∧ chainId ≠ 0 ∧ chainId ≠ config.chainId
  | _ => False

namespace PeerManager

/-- Banned without an end, and marked for disconnection while still connected. -/
structure Outlawed (peerId : String) (manager : PeerManager) : Prop where
  banned : manager.banned.lookup peerId = some 0
  marked
    : ∀ peer, manager.peers.lookup peerId = some peer → peer.disconnectPending = true

theorem Outlawed.isBanned {peerId : String} {manager : PeerManager}
    (outlawed : manager.Outlawed peerId)
    : manager.isBanned peerId = true := by
  simp only [PeerManager.isBanned, outlawed.banned, decide_true, Bool.true_or]

theorem Outlawed.rejected {peerId : String} {manager : PeerManager}
    (outlawed : manager.Outlawed peerId) (order : PeerOrder) (direction : Direction)
    : (manager.onPeerConnected order peerId direction).1 = false := by
  rcases onPeerConnected_cases order peerId direction manager with ⟨rejected, _⟩ | ⟨free, _⟩
  · exact rejected
  · rw [outlawed.isBanned] at free
    exact absurd free Bool.true_eq_false.mp

theorem Outlawed.step {peerId : String} {before after : PeerManager}
    (outlawed : before.Outlawed peerId) (step : Step before after)
    : after.Outlawed peerId where
  banned := step.bans peerId outlawed.banned
  marked := by
    intro peer found
    obtain ⟨old, wasThere, continues⟩ := step.entry peerId peer found
    exact continues.marked (outlawed.marked old wasThere)

/-- No call lifts the ban or the mark: a peer that it adds is not banned, so it is another. -/
theorem Outlawed.call {op : PeerOp} {peerId : String} {manager after : PeerManager}
    {reply : Reply} (outlawed : manager.Outlawed peerId)
    (returns : call op manager = some (reply, after))
    : after.Outlawed peerId := by
  rcases call_cases returns with ⟨step, _⟩ | ⟨order, added, direction, _, free, _, _, rfl⟩
  · exact outlawed.step step
  · have still := outlawed.step (step_makeRoom order manager).1
    have other : peerId ≠ added := by
      rintro rfl
      rw [outlawed.isBanned] at free
      simp at free
    refine ⟨still.banned, fun peer found => ?_⟩
    rw [Finmap.lookup_insert_of_ne _ other] at found
    exact still.marked peer found

/-- Recording an event that leaves a score at the ban threshold outlaws the peer. -/
theorem outlawed_of_recordEvent {manager after : PeerManager} {peerId : String}
    {event : ScoreEvent} {peer : PeerInfo}
    (done : manager.recordEvent peerId event = some after)
    (found : after.peers.lookup peerId = some peer) (low : peer.score ≤ banThreshold)
    (connected : peerId ∈ manager.peers)
    : after.Outlawed peerId := by
  obtain ⟨old, wasThere⟩ := Finmap.mem_iff.mp connected
  obtain ⟨adjusted, pending, banned, _, marks, rfl, rfl⟩ := recordEvent_eq_some wasThere done
  rw [Finmap.lookup_insert] at found
  obtain rfl := Option.some.inj found
  have isLow : adjusted.score ≤ banThreshold := low
  refine ⟨by rw [if_pos isLow, Finmap.lookup_insert], fun peer isThere => ?_⟩
  rw [Finmap.lookup_insert] at isThere
  obtain rfl := Option.some.inj isThere
  rcases marks with marked | ⟨high, _⟩
  · exact marked
  · exact absurd isLow (not_le.mpr high)

/-- A recording operation that leaves a score at the ban threshold outlaws the peer. -/
theorem outlawed_of_records {op : PeerOp} {manager after : PeerManager} {reply : Reply}
    {peerId : String} {peer : PeerInfo} (records : op.Records manager.config peerId)
    (returns : call op manager = some (reply, after))
    (found : after.peers.lookup peerId = some peer) (low : peer.score ≤ banThreshold)
    : after.Outlawed peerId := by
  cases op with
  | onPeerConnected order other direction => exact records.elim
  | onPeerDisconnected other => exact records.elim
  | tick order => exact records.elim
  | recordEvent other event =>
      obtain rfl : other = peerId := records
      obtain ⟨_, done, same⟩ := Option.map_eq_some_iff.mp returns
      obtain ⟨rfl, rfl⟩ := Prod.mk.inj same
      obtain ⟨old, wasThere, _⟩ := (step_recordEvent done).1.entry other peer found
      exact outlawed_of_recordEvent done found low (Finmap.mem_of_lookup_eq_some wasThere)
  | updatePeerStatus other bestBlock chainId =>
      obtain ⟨rfl, foreign⟩ : other = peerId ∧ chainId ≠ 0 ∧ chainId ≠ manager.config.chainId :=
        records
      obtain ⟨_, done, same⟩ := Option.map_eq_some_iff.mp returns
      obtain ⟨rfl, rfl⟩ := Prod.mk.inj same
      obtain ⟨old, wasThere, _⟩ := (step_updatePeerStatus done).entry other peer found
      simp only [updatePeerStatus, wasThere, if_pos foreign] at done
      exact outlawed_of_recordEvent done found low
        (Finmap.mem_insert.mpr (Or.inl rfl))

/-- In every state of every run that comes after, the peer is banned, it is not let in, and it
is listed for disconnection as long as it is connected.
-/
theorem banPermanence_run (config : PeerManagerConfig) (earlier later : List PeerOp)
    {op : PeerOp} {reply : Reply} {after : PeerManager} {peerId : String} {peer : PeerInfo}
    (records : op.Records config peerId)
    (returns : call op (CallTrace.final call earlier (new config)) = some (reply, after))
    (found : after.peers.lookup peerId = some peer) (low : peer.score ≤ banThreshold)
    : let manager := CallTrace.final call later after
      manager.isBanned peerId = true
        ∧ (∀ order direction, (manager.onPeerConnected order peerId direction).1 = false)
        ∧ (peerId ∈ manager.peers →
            ∀ order, ∃ listed, manager.peersToDisconnect order = some listed
              ∧ peerId ∈ listed) := by
  obtain ⟨consistent, same⟩ := consistent_runAll config earlier
  have outlaws : after.Outlawed peerId :=
    outlawed_of_records (same.symm ▸ records) returns found low
  have both
      : (CallTrace.final call later after).Outlawed peerId
        ∧ (CallTrace.final call later after).Consistent := by
    apply CallTrace.final_invariant
      (fun manager : PeerManager => manager.Outlawed peerId ∧ manager.Consistent)
    · rintro _ _ _ _ ⟨outlawed, consistent⟩ returns
      exact ⟨outlawed.call returns, consistent.call returns⟩
    · exact ⟨outlaws, consistent.call returns⟩
  obtain ⟨outlawed, consistent⟩ := both
  refine ⟨outlawed.isBanned, outlawed.rejected, fun connected order => ?_⟩
  obtain ⟨listed, done, members⟩ := consistent.peersToDisconnect order
  obtain ⟨peer, found⟩ := Finmap.mem_iff.mp connected
  refine ⟨listed, done, (members peerId).mpr ⟨peer, found, ?_⟩⟩
  rw [PeerInfo.outdated, if_pos (outlawed.marked peer found)]

/-- Five invalid blocks of a new peer; the sixth brings its score to the ban threshold. -/
def misbehaviour : List PeerOp :=
  .onPeerConnected byName "peer1" .inbound
    :: List.replicate 5 (.recordEvent "peer1" .invalidBlock)

theorem banPermanence_run_sixInvalidBlocks
    : let manager :=
        CallTrace.final call [.tick byName, .recordEvent "peer1" .validBlock]
          (CallTrace.final call [.recordEvent "peer1" .invalidBlock]
            (CallTrace.final call misbehaviour (new singlePeer)))
      manager.isBanned "peer1" = true
        ∧ (∀ order direction, (manager.onPeerConnected order "peer1" direction).1 = false)
        ∧ ("peer1" ∈ manager.peers →
            ∀ order, ∃ listed, manager.peersToDisconnect order = some listed
              ∧ "peer1" ∈ listed) :=
  @banPermanence_run singlePeer misbehaviour [.tick byName, .recordEvent "peer1" .validBlock]
    (.recordEvent "peer1" .invalidBlock) none _ "peer1" _ rfl rfl rfl (by decide)

end PeerManager

end VeloChain
