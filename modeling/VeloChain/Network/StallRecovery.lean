import VeloChain.Network.Polls

/-! Whether the sync engine goes on when a peer reports a higher block and nothing is pending.
A status leaves the synced state only, so that what happens next depends on the state in which
the engine was left, on the headers that are there, and on the limits.
-/

namespace VeloChain

namespace SyncEngine

variable {engine : SyncEngine}

/-- The next poll requests something or the next verification verifies a range. -/
def Progresses (engine : SyncEngine) : Prop :=
  engine.pollHeaderRequests.1 ≠ []
  ∨ engine.pollBodyRequests.1 ≠ []
  ∨ ∃ first last, engine.verifyChain.1 = .rangeVerified first last

/-- There is something to do for a target: headers to request in the phase of headers or from a
synced state, bodies to request in their phase, or an unbroken chain.
-/
inductive Recoverable (engine : SyncEngine) (bestBlock : Nat) : Prop where
  | headers
      (state : engine.state = .synced ∨ engine.state = .downloadingHeaders)
      (slots : 0 < engine.config.maxHeaderRequests)
      (below : engine.headers.highest ≤ bestBlock)
  | bodies
      (state : engine.state = .downloadingBodies)
      (slots : 0 < word (engine.config.maxBodyRequests * engine.config.bodiesPerRequest))
      (pending
        : ∃ number header,
            engine.headers.lookup number = some header ∧ header.bodyDownloaded = false)
  | chain
      (stored : engine.headers.numbers ≠ [])
      (unbroken : brokenAt engine.headers engine.headers.numbers = none)

/-- Bodies are pending exactly when some header is there without its body. -/
theorem pendingBodies_ne_nil (engine : SyncEngine)
    : engine.pendingBodies ≠ []
      ↔ ∃ number header,
          engine.headers.lookup number = some header ∧ header.bodyDownloaded = false := by
  constructor
  · intro some
    obtain ⟨blockHash, isPending⟩ := List.exists_mem_of_ne_nil _ some
    obtain ⟨number, header, found, _, missing⟩ := mem_pendingBodies.mp isPending
    exact ⟨number, header, found, missing⟩
  · rintro ⟨number, header, found, missing⟩
    exact List.ne_nil_of_mem (mem_pendingBodies.mpr ⟨number, header, found, rfl, missing⟩)

/-- A range is verified exactly when headers are there and form a chain. -/
theorem verifyChain_eq_rangeVerified (engine : SyncEngine)
    : (∃ first last, engine.verifyChain.1 = .rangeVerified first last)
      ↔ engine.headers.numbers ≠ []
        ∧ brokenAt engine.headers engine.headers.numbers = none := by
  unfold verifyChain
  cases listed : engine.headers.numbers with
  | nil => simp
  | cons first rest =>
      cases broken : brokenAt engine.headers (first :: rest) with
      | none => simp [broken]
      | some atBlock => simp [broken]

/-- A status above the local head and the target is the new target. -/
theorem onPeerStatus_of_higher {bestBlock : Nat} (above : engine.localHead < bestBlock)
    (higher : ∀ target, engine.target = some target → target.bestBlock < bestBlock)
    (peerId : String) (bestHash : B256)
    : engine.onPeerStatus peerId bestBlock bestHash
      = { engine with
          target := some { bestBlock, bestHash, peerId }
          state := if engine.state = .synced then .downloadingHeaders else engine.state } := by
  unfold onPeerStatus
  rw [if_neg (Nat.not_le.mpr above), if_pos]
  cases isTarget : engine.target with
  | none => rfl
  | some target => exact decide_eq_true (higher target isTarget)

/-- After a status, a poll wants headers exactly where the engine was synced or wanted them
before. A poll starts with the highest header or after the local head.
-/
theorem headersWanted_iff {bestBlock : Nat} (above : engine.localHead < bestBlock)
    (noHeaders : engine.headerRequests.keys.card = 0) {after : SyncEngine} {target : SyncTarget}
    (isAfter
      : after
        = { engine with
            target := some target
            state := if engine.state = .synced then .downloadingHeaders else engine.state })
    (isBest : target.bestBlock = bestBlock)
    : after.HeadersWanted target
      ↔ (engine.state = .synced ∨ engine.state = .downloadingHeaders)
        ∧ 0 < engine.config.maxHeaderRequests
        ∧ engine.headers.highest ≤ bestBlock := by
  have first : word (engine.localHead + 1) ≤ bestBlock :=
    (Nat.mod_le _ _).trans above
  have start
      : after.pollStart ≤ target.bestBlock ↔ engine.headers.highest ≤ bestBlock := by
    have none : after.headerRequests.keys.card = 0 := by rw [isAfter]; exact noHeaders
    unfold pollStart
    rw [highestRequested_of_none none, isAfter, isBest]
    simp only
    omega
  have phase
      : after.state = .downloadingHeaders
        ↔ engine.state = .synced ∨ engine.state = .downloadingHeaders := by
    rw [isAfter]
    simp only
    split
    next synced => simp [synced]
    next other => simp [other]
  rw [← start, ← phase]
  have slots : after.headerRequests.keys.card = 0 := by rw [isAfter]; exact noHeaders
  have sameConfig : after.config = engine.config := by rw [isAfter]
  constructor
  · intro wanted
    exact ⟨wanted.state, sameConfig ▸ Nat.zero_lt_of_lt wanted.slots, wanted.below⟩
  · rintro ⟨state, some, below⟩
    exact ⟨state, by rw [slots, sameConfig]; exact some, below⟩

/-- After a status, a poll wants bodies exactly where it wanted them before. -/
theorem bodiesWanted_iff (noBodies : engine.bodyRequests.keys.card = 0) {after : SyncEngine}
    {target : SyncTarget}
    (isAfter
      : after
        = { engine with
            target := some target
            state := if engine.state = .synced then .downloadingHeaders else engine.state })
    : after.BodiesWanted
      ↔ engine.state = .downloadingBodies
        ∧ 0 < word (engine.config.maxBodyRequests * engine.config.bodiesPerRequest)
        ∧ engine.pendingBodies ≠ [] := by
  have phase : after.state = .downloadingBodies ↔ engine.state = .downloadingBodies := by
    rw [isAfter]
    simp only
    split
    next synced => simp [synced]
    next => rfl
  have samePending : after.pendingBodies = engine.pendingBodies := by rw [isAfter]; rfl
  have sameSlots
      : (after.config.maxBodyRequests - after.bodyRequests.keys.card)
          * after.config.bodiesPerRequest
        = engine.config.maxBodyRequests * engine.config.bodiesPerRequest := by
    rw [isAfter]
    simp only [noBodies, Nat.sub_zero]
  rw [← phase, ← samePending, ← sameSlots]
  constructor
  · exact fun wanted => ⟨wanted.state, wanted.slots, wanted.pending⟩
  · rintro ⟨state, slots, pending⟩
    exact ⟨state, slots, pending⟩

/-- In every state with nothing pending, a status above the local head and the target is followed
by progress exactly where the state is recoverable for it.
-/
theorem stallRecovery_iff (noHeaders : engine.headerRequests.keys.card = 0)
    (noBodies : engine.bodyRequests.keys.card = 0) (peerId : String) {bestBlock : Nat}
    (bestHash : B256) (above : engine.localHead < bestBlock)
    (higher : ∀ target, engine.target = some target → target.bestBlock < bestBlock)
    : (engine.onPeerStatus peerId bestBlock bestHash).Progresses
      ↔ engine.Recoverable bestBlock := by
  have isAfter := onPeerStatus_of_higher above higher peerId bestHash
  have sameHeaders
      : (engine.onPeerStatus peerId bestBlock bestHash).headers = engine.headers := by
    rw [isAfter]
  have isTarget
      : (engine.onPeerStatus peerId bestBlock bestHash).target
        = some { bestBlock, bestHash, peerId } := by
    rw [isAfter]
  unfold Progresses
  rw [pollHeaderRequests_ne_nil, pollBodyRequests_ne_nil, verifyChain_eq_rangeVerified,
    sameHeaders, bodiesWanted_iff noBodies isAfter, pendingBodies_ne_nil, isTarget]
  have forTarget
      : (∃ target,
            some { bestBlock, bestHash, peerId } = some target
            ∧ (engine.onPeerStatus peerId bestBlock bestHash).HeadersWanted target)
        ↔ (engine.state = .synced ∨ engine.state = .downloadingHeaders)
          ∧ 0 < engine.config.maxHeaderRequests
          ∧ engine.headers.highest ≤ bestBlock := by
    rw [← headersWanted_iff above noHeaders isAfter rfl]
    constructor
    · rintro ⟨target, same, wanted⟩
      exact (Option.some.inj same) ▸ wanted
    · exact fun wanted => ⟨_, rfl, wanted⟩
  rw [forTarget]
  constructor
  · rintro (⟨state, slots, below⟩ | ⟨state, slots, pending⟩ | ⟨stored, unbroken⟩)
    · exact .headers state slots below
    · exact .bodies state slots pending
    · exact .chain stored unbroken
  · rintro (⟨state, slots, below⟩ | ⟨state, slots, pending⟩ | ⟨stored, unbroken⟩)
    · exact Or.inl ⟨state, slots, below⟩
    · exact Or.inr (Or.inl ⟨state, slots, pending⟩)
    · exact Or.inr (Or.inr ⟨stored, unbroken⟩)

/-- Requests from the lowest id to the highest. -/
def byId : RequestOrder :=
  { headers := FinMap.ascending id Function.injective_id
    bodies := FinMap.ascending id Function.injective_id }

/-- One of two requests for headers is answered, and the other one times out. -/
def halfAnswered : SyncEngine :=
  let config :=
    { SyncConfig.default with headersPerRequest := 2, requestTimeoutTicks := 1, maxRetries := 0 }
  (new 0 config).runAll
    [.onPeerStatus "peer1" 3 3, .pollHeaderRequests, .onHeadersReceived [(1, 1, 0), (2, 2, 1)],
      .tick byId, .tick byId]

/-- With the first headers of three, an engine goes on for block 6. -/
theorem stallRecovery_iff_halfAnswered
    : (halfAnswered.onPeerStatus "peer2" 6 6).Progresses ↔ halfAnswered.Recoverable 6 :=
  stallRecovery_iff (by decide +kernel) (by decide +kernel) "peer2" 6 (by decide +kernel)
    (by decide +kernel)

/-- An engine that ticks before its first poll is stalled. -/
def stalled : SyncEngine := (new 0 .default).runAll [.onPeerStatus "peer1" 5 5, .tick byId]

/-- Nothing leads out of the stalled state: block 6 is a new target that nothing asks for. -/
theorem stallRecovery_fails
    : stalled.headerRequests.keys.card = 0
      ∧ stalled.bodyRequests.keys.card = 0
      ∧ stalled.localHead < 6
      ∧ stalled.target.all (fun target => target.bestBlock < 6)
      ∧ ¬ (stalled.onPeerStatus "peer2" 6 6).Progresses := by
  refine ⟨by decide +kernel, by decide +kernel, by decide +kernel, by decide +kernel, ?_⟩
  rintro (requests | requests | ⟨first, last, verified⟩)
  · exact absurd requests (by decide +kernel)
  · exact absurd requests (by decide +kernel)
  · have none : (stalled.onPeerStatus "peer2" 6 6).verifyChain.1 = .error .noPeers := by
      decide +kernel
    exact absurd (none.symm.trans verified) nofun

end SyncEngine

end VeloChain
