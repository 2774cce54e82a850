import VeloChain.Network.HeaderDownload
import VeloChain.Network.SyncCalls

/-! What the polls of the sync engine request, and of whom.
A poll requests something only in its own phase, below its own bound; every request goes to the
peer of the target. A banned peer gets no request where it is not the peer of the target.
-/

namespace VeloChain

namespace SyncEngine

-----------------------------------------------------------------------------------------
-- Header polls
-----------------------------------------------------------------------------------------

/-- A poll for headers up to the target finds something to request. -/
structure HeadersWanted (engine : SyncEngine) (target : SyncTarget) : Prop where
  state : engine.state = .downloadingHeaders
  slots : engine.headerRequests.keys.card < engine.config.maxHeaderRequests
  below : engine.pollStart ≤ target.bestBlock

/-- All header requests of a loop go to the peer of the target, by induction on the turns. -/
theorem addressees_issueHeaderRequests (target : SyncTarget) (more start : Nat)
    (engine : SyncEngine)
    : ∃ count,
        (issueHeaderRequests target more start engine).1.map (fun request => request.2.2.2)
          = List.replicate count (some target.peerId)
        ∧ (0 < count ↔ 0 < more ∧ start ≤ target.bestBlock) := by
  induction more generalizing start engine with
  | zero => exact ⟨0, rfl, by simp⟩
  | succ more ih =>
      unfold issueHeaderRequests
      split
      next above => exact ⟨0, rfl, by omega⟩
      next below =>
        obtain ⟨count, later, _⟩ := ih _ _
        refine ⟨count + 1, ?_, by omega⟩
        rw [List.replicate_succ, ← later]
        rfl

theorem addressees_pollHeaderRequests (engine : SyncEngine)
    : ∃ count,
        (engine.reply .pollHeaderRequests).addressees
          = List.replicate count (engine.target.map SyncTarget.peerId)
        ∧ (0 < count ↔ ∃ target, engine.target = some target ∧ engine.HeadersWanted target) := by
  unfold reply SyncReply.addressees pollHeaderRequests
  simp only
  split
  next other =>
    refine ⟨0, rfl, iff_of_false (by omega) ?_⟩
    rintro ⟨_, _, wanted⟩
    exact other wanted.state
  next phase =>
    split
    next none =>
      refine ⟨0, rfl, iff_of_false (by omega) ?_⟩
      rintro ⟨_, isSome, _⟩
      simp [none] at isSome
    next target isSome =>
      obtain ⟨count, same, positive⟩ :=
        addressees_issueHeaderRequests target
          (engine.config.maxHeaderRequests - engine.headerRequests.keys.card) engine.pollStart
          engine
      refine ⟨count, ?_, positive.trans ?_⟩
      · rw [isSome]
        exact same
      · constructor
        · rintro ⟨slots, below⟩
          exact ⟨target, isSome, not_not.mp phase, by omega, below⟩
        · rintro ⟨target', isSome', wanted⟩
          obtain rfl := Option.some.inj (isSome.symm.trans isSome')
          exact ⟨Nat.sub_pos_of_lt wanted.slots, wanted.below⟩

theorem pollHeaderRequests_ne_nil (engine : SyncEngine)
    : engine.pollHeaderRequests.1 ≠ []
      ↔ ∃ target, engine.target = some target ∧ engine.HeadersWanted target := by
  obtain ⟨count, same, positive⟩ := engine.addressees_pollHeaderRequests
  rw [← positive, ← List.length_pos_iff, ← List.length_map, ← @List.length_replicate _ count,
    ← same]
  rfl

-----------------------------------------------------------------------------------------
-- Body polls
-----------------------------------------------------------------------------------------

/-- A poll for bodies finds something to request. -/
structure BodiesWanted (engine : SyncEngine) : Prop where
  state : engine.state = .downloadingBodies
  slots
    : 0 < word ((engine.config.maxBodyRequests - engine.bodyRequests.keys.card)
        * engine.config.bodiesPerRequest)
  pending : engine.pendingBodies ≠ []

/-- All body requests of a loop go to the peer of the target, by induction on the turns. -/
theorem addressees_issueBodyRequests (pieces : List (List B256))
    (issued : List (Nat × List B256 × Option String) × SyncEngine)
    : (pieces.foldl issueBodyRequest issued).1.map (fun request => request.2.2)
      = issued.1.map (fun request => request.2.2)
        ++ List.replicate pieces.length (issued.2.target.map SyncTarget.peerId) := by
  induction pieces generalizing issued with
  | nil => rw [List.length_nil, List.replicate_zero, List.append_nil, List.foldl_nil]
  | cons hashes rest ih =>
      have first
          : (issueBodyRequest issued hashes).1.map (fun request => request.2.2)
            = issued.1.map (fun request => request.2.2)
              ++ [issued.2.target.map SyncTarget.peerId] := List.map_append
      rw [List.foldl_cons, ih, first, List.append_assoc, List.length_cons, List.replicate_succ]
      rfl

theorem chunks_ne_nil {α : Type} (size : Nat) (items : List α)
    : 0 < (chunks size items.length items).length ↔ items ≠ [] := by
  cases items with
  | nil => simp [chunks]
  | cons first rest => simp [chunks]

theorem addressees_pollBodyRequests (engine : SyncEngine)
    : ∃ count,
        (engine.reply .pollBodyRequests).addressees
          = List.replicate count (engine.target.map SyncTarget.peerId)
        ∧ (0 < count ↔ engine.BodiesWanted) := by
  unfold reply SyncReply.addressees pollBodyRequests
  simp only
  split
  next other => exact ⟨0, rfl, iff_of_false (by omega) fun wanted => other wanted.state⟩
  next phase =>
    refine ⟨_, addressees_issueBodyRequests _ _, ?_⟩
    rw [chunks_ne_nil, ne_eq, List.take_eq_nil_iff, not_or]
    constructor
    · rintro ⟨slots, pending⟩
      exact ⟨not_not.mp phase, Nat.pos_of_ne_zero slots, pending⟩
    · intro wanted
      exact ⟨Nat.pos_iff_ne_zero.mp wanted.slots, wanted.pending⟩

theorem pollBodyRequests_ne_nil (engine : SyncEngine)
    : engine.pollBodyRequests.1 ≠ [] ↔ engine.BodiesWanted := by
  obtain ⟨count, same, positive⟩ := engine.addressees_pollBodyRequests
  rw [← positive, ← List.length_pos_iff, ← List.length_map, ← @List.length_replicate _ count,
    ← same]
  rfl

-----------------------------------------------------------------------------------------
-- Banned peers
-----------------------------------------------------------------------------------------

variable {peerId : String} {turn : ReturnedCall SyncEngine SyncOp SyncReply}

/-- A call requests nothing of the peer and does not record it with a new target. -/
structure Shuns (peerId : String) (turn : ReturnedCall SyncEngine SyncOp SyncReply) : Prop where
  noRequest : some peerId ∉ turn.reply.addressees
  notRecorded
    : turn.after.target = turn.before.target
      ∨ turn.after.target.map SyncTarget.peerId ≠ some peerId

/-- A status is not above the local head or not above the target. -/
def Outdated (engine : SyncEngine) (bestBlock : Nat) : Prop :=
  bestBlock ≤ engine.localHead
  ∨ ∃ target, engine.target = some target ∧ bestBlock ≤ target.bestBlock

/-- A status of the peer is outdated. -/
def Unheard (peerId : String) (engine : SyncEngine) : SyncOp → Prop
  | .onPeerStatus sender bestBlock _ => sender = peerId → engine.Outdated bestBlock
  | _ => True

/-- A status of the peer is outdated, and a poll that finds something to request does not find
the peer at the target.
-/
def Spared (peerId : String) (engine : SyncEngine) : SyncOp → Prop
  | .onPeerStatus sender bestBlock _ => sender = peerId → engine.Outdated bestBlock
  | .pollHeaderRequests =>
      ∀ target, engine.target = some target → engine.HeadersWanted target →
        target.peerId ≠ peerId
  | .pollBodyRequests =>
      engine.BodiesWanted → engine.target.map SyncTarget.peerId ≠ some peerId
  | _ => True

/-- A status records its sender unless it is outdated. -/
theorem shuns_onPeerStatus (engine : SyncEngine) (sender : String) (bestBlock : Nat)
    (bestHash : B256)
    : ((engine.onPeerStatus sender bestBlock bestHash).target = engine.target
        ∨ (engine.onPeerStatus sender bestBlock bestHash).target.map SyncTarget.peerId
          ≠ some peerId)
      ↔ (sender = peerId → engine.Outdated bestBlock) := by
  unfold onPeerStatus
  split
  next low => exact iff_of_true (Or.inl rfl) fun _ => Or.inl low
  next above =>
    split
    next higher =>
      simp only [Option.map_some, ne_eq, Option.some.injEq]
      constructor
      · rintro (same | other) isPeer
        · -- a new target is not the old one, which it is above
          rw [← same, Option.all_some, decide_eq_true_iff] at higher
          exact absurd higher (Nat.lt_irrefl bestBlock)
        · exact absurd isPeer other
      · intro outdated
        right
        intro isPeer
        rcases outdated isPeer with low | ⟨target, isTarget, notHigher⟩
        · exact above low
        · rw [isTarget, Option.all_some, decide_eq_true_iff] at higher
          omega
    next lower =>
      refine iff_of_true (Or.inl rfl) fun _ => Or.inr ?_
      cases isTarget : engine.target with
      | none => simp [isTarget] at lower
      | some target =>
          rw [isTarget, Option.all_some, decide_eq_true_iff] at lower
          exact ⟨target, rfl, Nat.not_lt.mp lower⟩

/-- What decides whether a call has to do with the peer. -/
theorem shuns_iff (returns : call turn.op turn.before = some (turn.reply, turn.after))
    : Shuns peerId turn ↔ Spared peerId turn.before turn.op := by
  obtain ⟨sameReply, sameAfter⟩ := turn_of_call returns
  obtain ⟨engine, op, reply, after⟩ := turn
  simp only at sameReply sameAfter ⊢
  subst sameReply sameAfter
  have unaddressed (noRequest : (engine.reply op).addressees = [])
      : Shuns peerId ⟨engine, op, engine.reply op, engine.run op⟩
        ↔ (engine.run op).target = engine.target
          ∨ (engine.run op).target.map SyncTarget.peerId ≠ some peerId := by
    constructor
    · exact Shuns.notRecorded
    · exact fun notRecorded => ⟨by simp [noRequest], notRecorded⟩
  have unchanged (sameTarget : (engine.run op).target = engine.target)
      : Shuns peerId ⟨engine, op, engine.reply op, engine.run op⟩
        ↔ some peerId ∉ (engine.reply op).addressees := by
    constructor
    · exact Shuns.noRequest
    · exact fun noRequest => ⟨noRequest, Or.inl sameTarget⟩
  cases op with
  | banPeer banned => exact (unaddressed rfl).trans (iff_of_true (Or.inl rfl) trivial)
  | onPeerStatus sender bestBlock bestHash =>
      exact (unaddressed rfl).trans (shuns_onPeerStatus engine sender bestBlock bestHash)
  | updateLocalHead newHead =>
      refine (unaddressed rfl).trans (iff_of_true ?_ trivial)
      obtain ⟨_, _, moved, ⟨rfl, rfl⟩ | ⟨rfl, rfl⟩⟩ := engine.updateLocalHead_cases newHead
      · exact Or.inl (by simp [run, moved])
      · exact Or.inr (by simp [run, moved])
  | pollHeaderRequests =>
      obtain ⟨_, _, frame⟩ := engine.pollHeaderRequests_frame
      obtain ⟨count, addressees, positive⟩ := engine.addressees_pollHeaderRequests
      refine (unchanged (by simp [run, frame])).trans ?_
      rw [addressees, List.mem_replicate, not_and, ← Nat.pos_iff_ne_zero, positive]
      constructor
      · intro spared target isTarget wanted isPeer
        exact spared ⟨target, isTarget, wanted⟩ (by rw [isTarget, Option.map_some, isPeer])
      · rintro spared ⟨target, isTarget, wanted⟩ isPeer
        rw [isTarget, Option.map_some, Option.some.injEq] at isPeer
        exact spared target isTarget wanted isPeer.symm
  | onHeadersReceived headers =>
      refine (unaddressed rfl).trans (iff_of_true (Or.inl ?_) trivial)
      cases headers <;> rfl
  | pollBodyRequests =>
      obtain ⟨_, _, frame⟩ := engine.pollBodyRequests_frame
      obtain ⟨count, addressees, positive⟩ := engine.addressees_pollBodyRequests
      refine (unchanged (by simp [run, frame])).trans ?_
      rw [addressees, List.mem_replicate, not_and, ← Nat.pos_iff_ne_zero, positive]
      exact forall_congr' fun _ => not_congr eq_comm
  | onBodiesReceived hashes => exact (unaddressed rfl).trans (iff_of_true (Or.inl rfl) trivial)
  | verifyChain =>
      refine (unaddressed rfl).trans (iff_of_true (Or.inl ?_) trivial)
      rcases engine.verifyChain_cases with ⟨_, _, verified⟩ | ⟨_, same⟩
      · simp [run, verified]
      · simp [run, same]
  | tick order => exact (unaddressed rfl).trans (iff_of_true (Or.inl rfl) trivial)
  | drainImportReady => exact (unaddressed rfl).trans (iff_of_true (Or.inl rfl) trivial)

/-- Where the peer is not the peer of the target, outdated statuses are enough. -/
theorem spared_of_unheard {engine : SyncEngine} {op : SyncOp}
    (notTarget : engine.target.map SyncTarget.peerId ≠ some peerId)
    (unheard : Unheard peerId engine op)
    : Spared peerId engine op := by
  cases op with
  | onPeerStatus sender bestBlock bestHash => exact unheard
  | pollHeaderRequests =>
      intro target isTarget _ isPeer
      exact notTarget (by rw [isTarget, Option.map_some, isPeer])
  | pollBodyRequests => exact fun _ => notTarget
  | _ => trivial

/-- A peer that is not the peer of the target is shunned as long as its statuses are outdated,
by induction on the calls.
-/
theorem shuns_of_unheard {ops : List SyncOp} {engine : SyncEngine}
    (notTarget : engine.target.map SyncTarget.peerId ≠ some peerId)
    (unheard : Throughout (Unheard peerId) ops engine)
    : ∀ turn ∈ CallTrace.calls call ops engine, Shuns peerId turn := by
  induction ops generalizing engine with
  | nil => exact fun _ member => absurd member List.not_mem_nil
  | cons op rest ih =>
      obtain ⟨first, later⟩ := List.forall_mem_cons.mp unheard
      have shunned : Shuns peerId ⟨engine, op, engine.reply op, engine.run op⟩ :=
        (shuns_iff rfl).mpr (spared_of_unheard notTarget first)
      refine List.forall_mem_cons.mpr ⟨shunned, ih ?_ later⟩
      rcases shunned.notRecorded with same | other
      · change (engine.run op).target = engine.target at same
        rwa [same]
      · exact other

/-- After a ban the engine has to do with the peer at exactly the calls that find it at the
target and at a status that is not outdated: the ban decides nothing. So the peer is shunned
where it is not the peer of the target at the ban and all its later statuses are outdated.
-/
theorem bannedPeer_run (peerId : String) (localHead : Nat) (config : SyncConfig)
    (earlier later : List SyncOp)
    : ((∀ turn ∈ CallTrace.calls call later
            ((new localHead config).runAll (earlier ++ [.banPeer peerId])),
          Shuns peerId turn)
        ↔ Throughout (Spared peerId) later
            ((new localHead config).runAll (earlier ++ [.banPeer peerId])))
      ∧ (((new localHead config).runAll (earlier ++ [.banPeer peerId])).target.map
            SyncTarget.peerId ≠ some peerId →
          Throughout (Unheard peerId) later
            ((new localHead config).runAll (earlier ++ [.banPeer peerId])) →
          ∀ turn ∈ CallTrace.calls call later
              ((new localHead config).runAll (earlier ++ [.banPeer peerId])),
            Shuns peerId turn) := by
  refine ⟨?_, shuns_of_unheard⟩
  exact forall₂_congr fun turn member => shuns_iff (CallTrace.call_of_mem member)

/-- An outdated status of the banned peer, and a request to another one. -/
theorem bannedPeer_run_outdatedStatus
    : ∀ turn ∈ CallTrace.calls call [.onPeerStatus "peer2" 5 5, .pollHeaderRequests]
          ((new 0 .default).runAll ([.onPeerStatus "peer1" 5 5] ++ [.banPeer "peer2"])),
        Shuns "peer2" turn := by
  refine (bannedPeer_run "peer2" 0 .default [.onPeerStatus "peer1" 5 5]
    [.onPeerStatus "peer2" 5 5, .pollHeaderRequests]).2 (by decide +kernel)
    (.cons ?_ (.cons trivial (throughout_nil _ _)))
  exact fun _ => Or.inr ⟨{ bestBlock := 5, bestHash := 5, peerId := "peer1" }, rfl, by decide⟩

/-- A banned peer announces block 5, and the next poll requests its headers of that peer. -/
theorem bannedPeer_fails
    : ¬ ∀ turn ∈ CallTrace.calls call [.onPeerStatus "peer1" 5 5, .pollHeaderRequests]
          ((new 0 .default).runAll ([] ++ [.banPeer "peer1"])),
        Shuns "peer1" turn := by
  intro shunned
  have noRequest
      : ∀ turn ∈ CallTrace.calls call [.onPeerStatus "peer1" 5 5, .pollHeaderRequests]
          ((new 0 .default).runAll ([] ++ [.banPeer "peer1"])),
        some "peer1" ∉ turn.reply.addressees :=
    fun turn member => (shunned turn member).noRequest
  exact absurd noRequest (by decide +kernel)

end SyncEngine

end VeloChain
