import VeloChain.Lib.CallTrace
import VeloChain.Rpc.Session

/-! Sessions and the index of addresses.
The index only leads to active sessions of the address. It has every active session as long as
no superseded session is ended: ending one takes the entry of the session that came after it.
-/

namespace VeloChain

/-- The time at which a call reads the clock. -/
def SessionOp.time : SessionOp → Option UInt64
  | .connect now _ | .heartbeat now _ | .cleanupExpired now _ => some now
  | _ => none

namespace SessionManager

/-- Each address has at most one active session, and the lookup by address finds exactly it. -/
structure ExactIndex (manager : SessionManager) : Prop where
  unique
    : ∀ left right first second,
        manager.sessions.lookup left = some first → manager.sessions.lookup right = some second
        → first.isActive = true → second.isActive = true → first.address = second.address
        → left = right
  found
    : ∀ id session, manager.sessions.lookup id = some session → session.isActive = true →
        manager.getSessionByAddress session.address = some session

/-- A session that has ended, while its address has an active one. -/
def Superseded (manager : SessionManager) (sessionId : String) : Prop :=
  ∃ session id current,
    manager.sessions.lookup sessionId = some session ∧ session.isActive = false
    ∧ manager.sessions.lookup id = some current ∧ current.isActive = true
    ∧ current.address = session.address

/-- A call does not end a superseded session. -/
def SparesSuperseded (manager : SessionManager) : SessionOp → Prop
  | .disconnect sessionId => ¬ manager.Superseded sessionId
  | _ => True

/-- A call that creates a session gives it an id that no session has. -/
def CreatesFresh (keccak256 : Bytes → B256) (manager : SessionManager) : SessionOp → Prop
  | .connect now address =>
      manager.existingSession address = none
      → manager.sessions.lookup (generateSessionId keccak256 address now) = none
  | _ => True

instance (keccak256 : Bytes → B256) (manager : SessionManager)
    : ∀ op, Decidable (CreatesFresh keccak256 manager op)
  | .connect _ _ => inferInstanceAs (Decidable (_ → _))
  | .disconnect _ | .heartbeat _ _ | .cleanupExpired _ _ | .getSession _
  | .getSessionByAddress _ => inferInstanceAs (Decidable True)

/-- Sessions stand under their own ids, and the index leads to active sessions of the address. -/
structure WellIndexed (manager : SessionManager) : Prop where
  keyed : ∀ id session, manager.sessions.lookup id = some session → session.sessionId = id
  indexed
    : ∀ address id, manager.addressIndex.lookup address = some id →
        ∃ session, manager.sessions.lookup id = some session
          ∧ session.address = address ∧ session.isActive = true

/-- The index has the active sessions. -/
def ActiveIndexed (manager : SessionManager) : Prop :=
  ∀ id session, manager.sessions.lookup id = some session → session.isActive = true →
    manager.addressIndex.lookup session.address = some id

variable {keccak256 : Bytes → B256} {manager : SessionManager}

theorem WellIndexed.existingSession (wellIndexed : manager.WellIndexed) (address : String)
    : manager.existingSession address = manager.addressIndex.lookup address := by
  cases found : manager.addressIndex.lookup address with
  | none => simp only [SessionManager.existingSession, found, Option.filter_none]
  | some id =>
      obtain ⟨session, isThere, _⟩ := wellIndexed.indexed address id found
      exact existingSession_eq_some.mpr ⟨found, session, isThere⟩

/-- The index is exact when it has the active sessions. -/
theorem WellIndexed.exactIndex_iff (wellIndexed : manager.WellIndexed)
    : manager.ExactIndex ↔ manager.ActiveIndexed := by
  constructor
  · intro exact_ id session isThere active
    obtain ⟨other, found, same⟩ :=
      Option.bind_eq_some_iff.mp (exact_.found id session isThere active)
    rw [found, ← wellIndexed.keyed other session same, wellIndexed.keyed id session isThere]
  · intro active
    refine ⟨?_, fun id session isThere isActive => ?_⟩
    · intro left right first second isLeft isRight firstActive secondActive same
      have toLeft := active left first isLeft firstActive
      rw [same, active right second isRight secondActive] at toLeft
      exact (Option.some.inj toLeft).symm
    · rw [getSessionByAddress, active id session isThere isActive, Option.bind_some, isThere]

theorem wellIndexed_new (timeoutSecs : UInt64)
    : (new timeoutSecs).WellIndexed ∧ (new timeoutSecs).ActiveIndexed := by
  refine ⟨⟨?_, ?_⟩, ?_⟩
  · intro id session found
    simp [new] at found
  · intro address id found
    simp [new] at found
  · intro id session found
    simp [new] at found

-----------------------------------------------------------------------------------------
-- Ending sessions
-----------------------------------------------------------------------------------------

theorem WellIndexed.deactivate (wellIndexed : manager.WellIndexed) (sessionId : String)
    : (manager.deactivate sessionId).WellIndexed := by
  cases found : manager.sessions.lookup sessionId with
  | none => rwa [deactivate_of_missing found]
  | some session =>
      constructor
      · intro id other isThere
        rw [sessions_deactivate found] at isThere
        split at isThere
        next same =>
          obtain rfl := Option.some.inj isThere
          exact (wellIndexed.keyed sessionId session found).trans same.symm
        next => exact wellIndexed.keyed id other isThere
      · intro address id isIndexed
        rw [addressIndex_deactivate found] at isIndexed
        split at isIndexed
        next => simp at isIndexed
        next different =>
          obtain ⟨other, isThere, own, active⟩ := wellIndexed.indexed address id isIndexed
          refine ⟨other, ?_, own, active⟩
          rw [sessions_deactivate found, if_neg, isThere]
          rintro rfl
          obtain rfl := Option.some.inj (found.symm.trans isThere)
          exact different own.symm

/-- Ending a session leaves the active ones in the index exactly where it is not superseded. -/
theorem ActiveIndexed.deactivate_iff (active : manager.ActiveIndexed) (sessionId : String)
    : (manager.deactivate sessionId).ActiveIndexed ↔ ¬ manager.Superseded sessionId := by
  cases found : manager.sessions.lookup sessionId with
  | none =>
      rw [deactivate_of_missing found]
      refine iff_of_true active ?_
      rintro ⟨session, _, _, isThere, _⟩
      exact absurd (found.symm.trans isThere) (by simp)
  | some session =>
      constructor
      · rintro still ⟨ended, id, current, isThere, inactive, isCurrent, isActive, same⟩
        obtain rfl := Option.some.inj (found.symm.trans isThere)
        have other : id ≠ sessionId := by
          rintro rfl
          obtain rfl := Option.some.inj (found.symm.trans isCurrent)
          simp [inactive] at isActive
        have listed := still id current
          (by rw [sessions_deactivate found, if_neg other, isCurrent]) isActive
        rw [addressIndex_deactivate found, if_pos same] at listed
        simp at listed
      · intro alone id other isThere isActive
        rw [sessions_deactivate found] at isThere
        split at isThere
        next =>
          obtain rfl := Option.some.inj isThere
          simp at isActive
        next different =>
          rw [addressIndex_deactivate found, if_neg, active id other isThere isActive]
          intro same
          -- the ended session was active as well, so both are the indexed one
          cases wasActive : session.isActive with
          | false => exact alone ⟨session, id, other, found, wasActive, isThere, isActive, same⟩
          | true =>
              have first := active id other isThere isActive
              have second := active sessionId session found wasActive
              rw [same, second] at first
              exact different (Option.some.inj first).symm

theorem not_superseded_of_active {sessionId : String} {session : SessionInfo}
    (found : manager.sessions.lookup sessionId = some session) (active : session.isActive = true)
    : ¬ manager.Superseded sessionId := by
  rintro ⟨other, _, _, isThere, inactive, _⟩
  obtain rfl := Option.some.inj (found.symm.trans isThere)
  simp [inactive] at active

/-- A sweep over distinct active sessions keeps the index, by induction on them: each is still
active at its turn.
-/
theorem kept_deactivateAll {ids : List String} (wellIndexed : manager.WellIndexed)
    (active : manager.ActiveIndexed) (nodup : ids.Nodup)
    (all
      : ∀ id ∈ ids, ∃ session, manager.sessions.lookup id = some session
          ∧ session.isActive = true)
    : (ids.foldl (fun manager id => manager.deactivate id) manager).WellIndexed
      ∧ (ids.foldl (fun manager id => manager.deactivate id) manager).ActiveIndexed := by
  induction ids generalizing manager with
  | nil => exact ⟨wellIndexed, active⟩
  | cons id rest ih =>
      obtain ⟨⟨session, found, isActive⟩, others⟩ := List.forall_mem_cons.mp all
      obtain ⟨fresh, nodup⟩ := List.nodup_cons.mp nodup
      refine ih (wellIndexed.deactivate id)
        ((active.deactivate_iff id).mpr (not_superseded_of_active found isActive)) nodup ?_
      intro other member
      obtain ⟨later, isThere, stillActive⟩ := others other member
      refine ⟨later, ?_, stillActive⟩
      rw [sessions_deactivate found, if_neg, isThere]
      rintro rfl
      exact fresh member

theorem kept_cleanupExpired (wellIndexed : manager.WellIndexed)
    (active : manager.ActiveIndexed) (order : IterationOrder String SessionInfo) (now : UInt64)
    : (manager.cleanupExpired order now).2.WellIndexed
      ∧ (manager.cleanupExpired order now).2.ActiveIndexed := by
  apply kept_deactivateAll wellIndexed active
  · exact (order.nodup manager.sessions).filter _
  · intro id member
    have expired := List.of_mem_filter member
    cases found : manager.sessions.lookup id with
    | none => simp [found] at expired
    | some session =>
        rw [found, Option.any_some, SessionInfo.expired, Bool.and_eq_true] at expired
        exact ⟨session, rfl, expired.1⟩

-----------------------------------------------------------------------------------------
-- Connections and heartbeats
-----------------------------------------------------------------------------------------

/-- A change of a session that keeps its id, its address and whether it is active keeps the
index.
-/
theorem kept_of_update {sessionId : String} {before after : SessionInfo}
    (wellIndexed : manager.WellIndexed) (active : manager.ActiveIndexed)
    (found : manager.sessions.lookup sessionId = some before)
    (sameId : after.sessionId = before.sessionId) (sameAddress : after.address = before.address)
    (sameActive : after.isActive = before.isActive)
    : { manager with sessions := manager.sessions.insert sessionId after }.WellIndexed
      ∧ { manager with sessions := manager.sessions.insert sessionId after }.ActiveIndexed := by
  refine ⟨⟨?_, ?_⟩, ?_⟩
  · intro id session isThere
    simp only [FinMap.lookup_insert_eq] at isThere
    split at isThere
    next same =>
      obtain rfl := Option.some.inj isThere
      rw [sameId, same]
      exact wellIndexed.keyed sessionId before found
    next => exact wellIndexed.keyed id session isThere
  · intro address id isIndexed
    obtain ⟨session, isThere, own, isActive⟩ := wellIndexed.indexed address id isIndexed
    simp only [FinMap.lookup_insert_eq]
    split
    next same =>
      rw [same] at isThere
      obtain rfl := Option.some.inj (found.symm.trans isThere)
      exact ⟨after, rfl, sameAddress.trans own, sameActive.trans isActive⟩
    next => exact ⟨session, isThere, own, isActive⟩
  · intro id session isThere isActive
    simp only [FinMap.lookup_insert_eq] at isThere
    split at isThere
    next same =>
      obtain rfl := Option.some.inj isThere
      rw [sameAddress, same]
      exact active sessionId before found (sameActive.symm.trans isActive)
    next => exact active id session isThere isActive

/-- A new session under a fresh id becomes the only active one of an address without any. -/
theorem kept_of_create {sessionId address : String} {now : UInt64}
    (wellIndexed : manager.WellIndexed) (active : manager.ActiveIndexed)
    (fresh : manager.sessions.lookup sessionId = none)
    (unindexed : manager.addressIndex.lookup address = none)
    : let after : SessionManager :=
        { manager with
          sessions := manager.sessions.insert sessionId (newSession sessionId address now)
          addressIndex := manager.addressIndex.insert address sessionId }
      after.WellIndexed ∧ after.ActiveIndexed := by
  refine ⟨⟨?_, ?_⟩, ?_⟩
  · intro id session isThere
    simp only [FinMap.lookup_insert_eq] at isThere
    split at isThere
    next same =>
      obtain rfl := Option.some.inj isThere
      exact same.symm
    next => exact wellIndexed.keyed id session isThere
  · intro other id isIndexed
    simp only [FinMap.lookup_insert_eq] at isIndexed ⊢
    split at isIndexed
    next same =>
      obtain rfl := Option.some.inj isIndexed
      exact ⟨newSession sessionId address now, if_pos rfl, same.symm, rfl⟩
    next =>
      obtain ⟨session, isThere, own, isActive⟩ := wellIndexed.indexed other id isIndexed
      refine ⟨session, ?_, own, isActive⟩
      rw [if_neg, isThere]
      rintro rfl
      exact absurd (fresh.symm.trans isThere) (by simp)
  · intro id session isThere isActive
    simp only [FinMap.lookup_insert_eq] at isThere ⊢
    split at isThere
    next same =>
      obtain rfl := Option.some.inj isThere
      rw [same]
      exact if_pos rfl
    next =>
      rw [if_neg, active id session isThere isActive]
      intro same
      have listed := active id session isThere isActive
      rw [same, unindexed] at listed
      simp at listed

/-- A connection keeps the index: it takes over the active session, or creates one. -/
theorem kept_connect {now : UInt64} {address : String} (wellIndexed : manager.WellIndexed)
    (active : manager.ActiveIndexed)
    (fresh : manager.CreatesFresh keccak256 (.connect now address))
    : (manager.connect keccak256 now address).2.WellIndexed
      ∧ (manager.connect keccak256 now address).2.ActiveIndexed := by
  unfold connect
  cases existing : manager.existingSession address with
  | some id =>
      obtain ⟨isIndexed, session, found⟩ := existingSession_eq_some.mp existing
      obtain ⟨other, isThere, _, isActive⟩ := wellIndexed.indexed address id isIndexed
      obtain rfl := Option.some.inj (found.symm.trans isThere)
      simp only [FinMap.modify, found]
      exact kept_of_update wellIndexed active found rfl rfl isActive.symm
  | none =>
      exact kept_of_create wellIndexed active (fresh existing)
        (by rwa [wellIndexed.existingSession] at existing)

theorem kept_heartbeat (wellIndexed : manager.WellIndexed) (active : manager.ActiveIndexed)
    (now : UInt64) (sessionId : String)
    : (manager.heartbeat now sessionId).2.WellIndexed
      ∧ (manager.heartbeat now sessionId).2.ActiveIndexed := by
  unfold heartbeat
  cases found : manager.sessions.lookup sessionId with
  | none => exact ⟨wellIndexed, active⟩
  | some session => exact kept_of_update wellIndexed active found rfl rfl rfl

-----------------------------------------------------------------------------------------
-- Runs
-----------------------------------------------------------------------------------------

/-- A call keeps the index exactly where it spares superseded sessions. -/
theorem kept_call {op : SessionOp} {reply : SessionReply} {after : SessionManager}
    (wellIndexed : manager.WellIndexed) (active : manager.ActiveIndexed)
    (fresh : manager.CreatesFresh keccak256 op)
    (returns : call keccak256 op manager = some (reply, after))
    : after.WellIndexed ∧ (after.ActiveIndexed ↔ manager.SparesSuperseded op) := by
  cases op with
  | connect now address =>
      obtain ⟨_, rfl⟩ := Prod.mk.inj (Option.some.inj returns)
      obtain ⟨kept, still⟩ := kept_connect wellIndexed active fresh
      exact ⟨kept, iff_of_true still trivial⟩
  | disconnect sessionId =>
      obtain ⟨_, rfl⟩ := Prod.mk.inj (Option.some.inj returns)
      change (manager.disconnect sessionId).2.WellIndexed
        ∧ ((manager.disconnect sessionId).2.ActiveIndexed ↔ _)
      rw [disconnect_eq]
      exact ⟨wellIndexed.deactivate sessionId, active.deactivate_iff sessionId⟩
  | heartbeat now sessionId =>
      obtain ⟨_, rfl⟩ := Prod.mk.inj (Option.some.inj returns)
      obtain ⟨kept, still⟩ := kept_heartbeat wellIndexed active now sessionId
      exact ⟨kept, iff_of_true still trivial⟩
  | cleanupExpired now order =>
      obtain ⟨_, rfl⟩ := Prod.mk.inj (Option.some.inj returns)
      obtain ⟨kept, still⟩ := kept_cleanupExpired wellIndexed active order now
      exact ⟨kept, iff_of_true still trivial⟩
  | getSession sessionId =>
      obtain ⟨_, rfl⟩ := Prod.mk.inj (Option.some.inj returns)
      exact ⟨wellIndexed, iff_of_true active trivial⟩
  | getSessionByAddress address =>
      obtain ⟨_, rfl⟩ := Prod.mk.inj (Option.some.inj returns)
      exact ⟨wellIndexed, iff_of_true active trivial⟩

/-- In every run in which new sessions have new ids, the index is exact in every state exactly
where no call ends a superseded session.
-/
theorem sessionIndex_run_iff (keccak256 : Bytes → B256) (timeoutSecs : UInt64)
    (ops : List SessionOp)
    (distinct
      : ∀ turn ∈ CallTrace.calls (call keccak256) ops (new timeoutSecs),
          turn.before.CreatesFresh keccak256 turn.op)
    : (∀ turn ∈ CallTrace.calls (call keccak256) ops (new timeoutSecs), turn.after.ExactIndex)
      ↔ ∀ turn ∈ CallTrace.calls (call keccak256) ops (new timeoutSecs),
          turn.before.SparesSuperseded turn.op := by
  obtain ⟨wellIndexed, active⟩ := wellIndexed_new timeoutSecs
  apply CallTrace.kept_iff_of_allowed WellIndexed ExactIndex _ _ distinct wellIndexed
    (wellIndexed.exactIndex_iff.mpr active)
  · intro turn wellIndexed exact_ fresh returns
    exact (kept_call wellIndexed (wellIndexed.exactIndex_iff.mp exact_) fresh returns).1
  · intro turn wellIndexed exact_ fresh returns
    obtain ⟨kept, decides⟩ :=
      kept_call wellIndexed (wellIndexed.exactIndex_iff.mp exact_) fresh returns
    exact kept.exactIndex_iff.trans decides

/-- A hash that shows its input in the leading bytes. -/
def leadingHash (bytes : Bytes) : B256 := hashFromSlice (bytes ++ List.replicate 16 0)

/-- A player connects, leaves and comes back a second later. -/
def comeBack : List SessionOp :=
  [.connect 0 "a", .disconnect (generateSessionId leadingHash "a" 0), .connect 1 "a"]

theorem sessionIndex_run_iff_comeBack
    : (∀ turn ∈ CallTrace.calls (call leadingHash) comeBack (new 300), turn.after.ExactIndex)
      ↔ ∀ turn ∈ CallTrace.calls (call leadingHash) comeBack (new 300),
          turn.before.SparesSuperseded turn.op :=
  sessionIndex_run_iff leadingHash 300 comeBack (by decide +kernel)

/-- The first session is ended once more: the second one is active and cannot be found. -/
theorem sessionIndex_fails
    : ¬ ∀ keccak256 timeoutSecs ops,
        (ops.filterMap SessionOp.time).Pairwise (· ≤ ·)
        → (∀ turn ∈ CallTrace.calls (call keccak256) ops (new timeoutSecs),
            turn.before.CreatesFresh keccak256 turn.op)
        → ∀ turn ∈ CallTrace.calls (call keccak256) ops (new timeoutSecs),
            turn.after.ExactIndex := by
  intro claimed
  have exact_ := claimed leadingHash 300
    (comeBack ++ [.disconnect (generateSessionId leadingHash "a" 0)]) (by decide +kernel)
    (by decide +kernel)
  have hidden
      : ∃ turn ∈ CallTrace.calls (call leadingHash)
          (comeBack ++ [.disconnect (generateSessionId leadingHash "a" 0)]) (new 300),
          (turn.after.sessions.lookup (generateSessionId leadingHash "a" 1)).map
              (fun session => (session.address, session.isActive))
            = some ("a", true)
          ∧ turn.after.getSessionByAddress "a" = none := by
    decide +kernel
  obtain ⟨turn, member, current, missing⟩ := hidden
  obtain ⟨session, isThere, same⟩ := Option.map_eq_some_iff.mp current
  obtain ⟨own, active⟩ := Prod.mk.inj same
  rw [← own, (exact_ turn member).found _ session isThere active] at missing
  simp at missing

end SessionManager

end VeloChain
