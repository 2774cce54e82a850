import Mathlib.Data.Fin.VecNotation
import VeloChain.Rpc.SessionCalls

/-! Deadlocks of the session manager.
A connection and a lookup by address take the sessions while they read the index; a
disconnection and a sweep take the index while they hold the sessions. They wait for each other
as soon as the index leads somewhere and there is a session to end.
-/

namespace VeloChain

open Interleaving Locks

variable {ι : Type*}

/-- The address whose index entry a call follows to a session. -/
def SessionRequest.follows : SessionRequest → Option String
  | .connect _ address | .getSessionByAddress address => some address
  | .disconnect _ | .cleanupExpired _ _ => none

namespace SessionManager

variable (keccak256 : Bytes → B256) (manager : SessionManager) (requests : ι → SessionRequest)
  (among : ι → Prop)

/-- The address is in the index, or some of the calls connect it. -/
def Indexes (address : String) : Prop :=
  (manager.addressIndex.lookup address).isSome = true
  ∨ ∃ call now, requests call = .connect now address ∧ among call

/-- Some of the calls connects an address without a session, which creates the session. -/
def Creates (sessionId : String) : Prop :=
  ∃ call now address,
    requests call = .connect now address ∧ manager.existingSession address = none
    ∧ generateSessionId keccak256 address now = sessionId ∧ among call

/-- One of the calls is a sweep, or ends a session that is there or gets created. -/
def Ends : Prop :=
  ∃ call,
    (∃ now order, requests call = .cleanupExpired now order)
    ∨ ∃ sessionId, requests call = .disconnect sessionId
        ∧ ((manager.sessions.lookup sessionId).isSome = true
          ∨ manager.Creates keccak256 requests among sessionId)

/-- A call follows the index to a session, next to a call that ends one. -/
def CrossesLocks : Prop :=
  ∃ call address,
    (requests call).follows = some address
    ∧ manager.Indexes requests (· ≠ call) address
    ∧ manager.Ends keccak256 requests (· ≠ call)

variable {keccak256} {manager} {requests} {among}

theorem Indexes.mono {wider : ι → Prop} (le : ∀ call, among call → wider call) {address : String}
    (indexes : manager.Indexes requests among address)
    : manager.Indexes requests wider address :=
  indexes.imp id (fun ⟨call, now, isRequest, isAmong⟩ => ⟨call, now, isRequest, le call isAmong⟩)

theorem Creates.mono {wider : ι → Prop} (le : ∀ call, among call → wider call)
    {sessionId : String} (creates : manager.Creates keccak256 requests among sessionId)
    : manager.Creates keccak256 requests wider sessionId := by
  obtain ⟨call, now, address, isRequest, noSession, sameId, isAmong⟩ := creates
  exact ⟨call, now, address, isRequest, noSession, sameId, le call isAmong⟩

theorem Ends.mono {wider : ι → Prop} (le : ∀ call, among call → wider call)
    (ends : manager.Ends keccak256 requests among)
    : manager.Ends keccak256 requests wider := by
  obtain ⟨call, sweep | ⟨sessionId, isRequest, there⟩⟩ := ends
  · exact ⟨call, Or.inl sweep⟩
  · exact ⟨call, Or.inr ⟨sessionId, isRequest, there.imp id (fun creates => creates.mono le)⟩⟩

end SessionManager

namespace SessionCall

variable {keccak256 : Bytes → B256} {start manager : SessionManager}
  {requests : ι → SessionRequest} {among : ι → Prop}

-----------------------------------------------------------------------------------------
-- What the calls leave behind
-----------------------------------------------------------------------------------------

/-- A call does not follow the index, or does not do so any more. -/
def Past : SessionCall → Prop
  | .connect _ _ | .connectFound _ _ _ | .getSessionByAddress _ | .getFound _ _ => False
  | .release _ next => next.Past
  | _ => True

/-- Where a call can stand, by what was there at the start and by what the others can do. -/
def Fits (keccak256 : Bytes → B256) (start : SessionManager) (requests : ι → SessionRequest)
    (among : ι → Prop) (request : SessionRequest)
    : SessionCall → Prop
  | .connect now address => request = .connect now address
  | .connectFound now address existingId =>
      request = .connect now address
      ∧ start.Indexes requests among address
      ∧ (start.Ends keccak256 requests among
        ∨ ∀ first, start.existingSession address = some first → existingId = first)
  | .connectCreate now address =>
      request = .connect now address
      ∧ (start.Ends keccak256 requests among ∨ start.existingSession address = none)
  | .connectIndex address _ =>
      (∃ now, request = .connect now address)
      ∧ (start.Ends keccak256 requests among ∨ start.existingSession address = none)
  | .disconnect sessionId => request = .disconnect sessionId
  | .disconnectFound _ => start.Ends keccak256 requests among
  | .cleanupExpired now order => request = .cleanupExpired now order
  | .cleanupLocked now order => request = .cleanupExpired now order
  | .getSessionByAddress address => request = .getSessionByAddress address
  | .getFound address _ =>
      request = .getSessionByAddress address ∧ start.Indexes requests among address
  | .release _ next => next.Fits keccak256 start requests among request
  | .returned _ => True

/-- The entries of the maps, by what was there at the start and by what the calls can do. -/
structure Traced (keccak256 : Bytes → B256) (start : SessionManager)
    (requests : ι → SessionRequest) (among : ι → Prop) (manager : SessionManager) : Prop where
  indexed
    : ∀ address, (manager.addressIndex.lookup address).isSome = true →
        start.Indexes requests among address
  stored
    : ∀ sessionId, (manager.sessions.lookup sessionId).isSome = true →
        (start.sessions.lookup sessionId).isSome = true
        ∨ start.Creates keccak256 requests among sessionId
        ∨ start.Ends keccak256 requests among
  existing
    : start.Ends keccak256 requests among
      ∨ ∀ address first, start.existingSession address = some first →
          manager.existingSession address = some first

theorem past_act {call : SessionCall} (isPast : call.Past) (manager : SessionManager)
    : (act keccak256 call manager).1.Past := by
  cases call with
  | connect now address | connectFound now address existingId | getSessionByAddress address
  | getFound address sessionId =>
      exact isPast.elim
  | connectCreate now address | connectIndex address sessionId | disconnectFound address
  | cleanupExpired now order | cleanupLocked now order | returned reply =>
      trivial
  | disconnect sessionId =>
      simp only [act]
      split <;> trivial
  | release held next => rcases held with _ | ⟨first, _ | ⟨second, rest⟩⟩ <;> exact isPast

theorem Fits.mono {wider : ι → Prop} (le : ∀ call, among call → wider call)
    {request : SessionRequest} {call : SessionCall}
    (fits : call.Fits keccak256 start requests among request)
    : call.Fits keccak256 start requests wider request := by
  induction call with
  | connectFound now address existingId =>
      exact ⟨fits.1, fits.2.1.mono le, fits.2.2.imp (fun ends => ends.mono le) id⟩
  | connectCreate now address | connectIndex address sessionId =>
      exact ⟨fits.1, fits.2.imp (fun ends => ends.mono le) id⟩
  | disconnectFound address => exact SessionManager.Ends.mono le fits
  | getFound address sessionId => exact ⟨fits.1, fits.2.mono le⟩
  | release held next ih => exact ih fits
  | _ => exact fits

theorem Traced.mono {wider : ι → Prop} (le : ∀ call, among call → wider call)
    (traced : Traced keccak256 start requests among manager)
    : Traced keccak256 start requests wider manager where
  indexed address isIndexed := (traced.indexed address isIndexed).mono le
  stored sessionId isStored :=
    (traced.stored sessionId isStored).imp id
      (fun rest => rest.imp (fun creates => creates.mono le) (fun ends => ends.mono le))
  existing := traced.existing.imp (fun ends => ends.mono le) id

/-- Nothing that is stored under an id before is lost. -/
theorem Traced.insert_session (traced : Traced keccak256 start requests among manager)
    {sessionId : String} (session : SessionInfo)
    (stored
      : (start.sessions.lookup sessionId).isSome = true
        ∨ start.Creates keccak256 requests among sessionId
        ∨ start.Ends keccak256 requests among)
    : Traced keccak256 start requests among
        { manager with sessions := manager.sessions.insert sessionId session } where
  indexed := traced.indexed
  stored other isStored := by
    rw [FinMap.lookup_insert_eq] at isStored
    split at isStored
    next same => exact same ▸ stored
    next => exact traced.stored other isStored
  existing := by
    refine traced.existing.imp id (fun same address first isFirst => ?_)
    obtain ⟨isIndexed, session', found⟩ :=
      SessionManager.existingSession_eq_some.mp (same address first isFirst)
    refine SessionManager.existingSession_eq_some.mpr ⟨isIndexed, ?_⟩
    rw [FinMap.lookup_insert_eq]
    split
    next => exact ⟨session, rfl⟩
    next => exact ⟨session', found⟩

/-- A call that ends sessions takes entries from the index, and adds none. -/
theorem Traced.of_ends (traced : Traced keccak256 start requests among manager)
    (ends : start.Ends keccak256 requests among) {after : SessionManager}
    (indexed
      : ∀ address, (after.addressIndex.lookup address).isSome = true →
          (manager.addressIndex.lookup address).isSome = true)
    : Traced keccak256 start requests among after where
  indexed address isIndexed := traced.indexed address (indexed address isIndexed)
  stored _ _ := Or.inr (Or.inr ends)
  existing := Or.inl ends

/-- A connection puts its address into the index. -/
theorem Traced.insert_index (traced : Traced keccak256 start requests among manager)
    {address : String} (sessionId : String)
    (indexes : start.Indexes requests among address)
    (entitled
      : start.Ends keccak256 requests among ∨ start.existingSession address = none)
    : Traced keccak256 start requests among
        { manager with addressIndex := manager.addressIndex.insert address sessionId } where
  indexed other isIndexed := by
    rw [FinMap.lookup_insert_eq] at isIndexed
    split at isIndexed
    next same => exact same ▸ indexes
    next => exact traced.indexed other isIndexed
  stored := traced.stored
  existing := by
    rcases traced.existing with ends | same
    · exact Or.inl ends
    rcases entitled with ends | noSession
    · exact Or.inl ends
    refine Or.inr fun other first isFirst => ?_
    have different : other ≠ address := by
      rintro rfl
      exact absurd (noSession.symm.trans isFirst) (by simp)
    obtain ⟨isIndexed, there⟩ :=
      SessionManager.existingSession_eq_some.mp (same other first isFirst)
    refine SessionManager.existingSession_eq_some.mpr ⟨?_, there⟩
    rw [FinMap.lookup_insert_eq, if_neg different, isIndexed]

/-- An address without an index entry had no session at the start, unless sessions get ended. -/
theorem Traced.existingSession_eq_none (traced : Traced keccak256 start requests among manager)
    {address : String} (notIndexed : manager.addressIndex.lookup address = none)
    : start.Ends keccak256 requests among ∨ start.existingSession address = none := by
  refine traced.existing.imp id (fun same => ?_)
  cases existed : start.existingSession address with
  | none => rfl
  | some first =>
      have isIndexed := (SessionManager.existingSession_eq_some.mp (same address first existed)).1
      exact absurd (notIndexed.symm.trans isIndexed) (by simp)

/-- A sweep takes entries from the index, and adds none. -/
theorem isSome_of_cleanupExpired (order : IterationOrder String SessionInfo) (now : UInt64)
    {address : String}
    (after
      : ((manager.cleanupExpired order now).2.addressIndex.lookup address).isSome = true)
    : (manager.addressIndex.lookup address).isSome = true := by
  unfold SessionManager.cleanupExpired at after
  simp only at after
  generalize manager.expiredIds order now = expired at after
  induction expired generalizing manager with
  | nil => exact after
  | cons sessionId rest ih =>
      have before : ((manager.deactivate sessionId).addressIndex.lookup address).isSome = true :=
        ih after
      cases found : manager.sessions.lookup sessionId with
      | none => rwa [SessionManager.deactivate_of_missing found] at before
      | some session =>
          rw [SessionManager.addressIndex_deactivate found] at before
          split at before
          next => simp at before
          next => exact before

/-- What one step of a call keeps. -/
theorem Traced.act (traced : Traced keccak256 start requests among manager) {index : ι}
    {call : SessionCall} (fits : call.Fits keccak256 start requests among (requests index))
    (counted : call.Past → among index)
    : Traced keccak256 start requests among (call.act keccak256 manager).2
      ∧ (call.act keccak256 manager).1.Fits keccak256 start requests among (requests index) := by
  cases call with
  | connect now address =>
      simp only [SessionCall.act]
      cases isIndexed : manager.addressIndex.lookup address with
      | none => exact ⟨traced, fits, traced.existingSession_eq_none isIndexed⟩
      | some existingId =>
          refine ⟨traced, fits, traced.indexed address (by simp [isIndexed]), ?_⟩
          refine traced.existing.imp id (fun same first isFirst => ?_)
          have := (SessionManager.existingSession_eq_some.mp (same address first isFirst)).1
          exact Option.some.inj (isIndexed.symm.trans this)
  | connectFound now address existingId =>
      obtain ⟨isRequest, indexes, entitled⟩ := fits
      simp only [SessionCall.act]
      cases found : manager.sessions.lookup existingId with
      | some session =>
          exact ⟨traced.insert_session _ (traced.stored existingId (by simp [found])), trivial⟩
      | none =>
          refine ⟨traced, isRequest, ?_⟩
          rcases traced.existing with ends | same
          · exact Or.inl ends
          refine entitled.imp id (fun isFirst => ?_)
          cases existed : start.existingSession address with
          | none => rfl
          | some first =>
              obtain ⟨_, session, there⟩ :=
                SessionManager.existingSession_eq_some.mp (same address first existed)
              rw [← isFirst first existed, found] at there
              simp at there
  | connectCreate now address =>
      obtain ⟨isRequest, entitled⟩ := fits
      refine ⟨traced.insert_session _ (Or.inr ?_), ⟨now, isRequest⟩, entitled⟩
      exact entitled.symm.imp
        (fun noSession => ⟨index, now, address, isRequest, noSession, rfl, counted trivial⟩) id
  | connectIndex address sessionId =>
      obtain ⟨⟨now, isRequest⟩, entitled⟩ := fits
      exact ⟨traced.insert_index _ (Or.inr ⟨index, now, isRequest, counted trivial⟩) entitled,
        trivial⟩
  | disconnect sessionId =>
      simp only [SessionCall.act]
      cases found : manager.sessions.lookup sessionId with
      | none => exact ⟨traced, trivial⟩
      | some session =>
          have stored := traced.stored sessionId (by simp [found])
          refine ⟨traced.insert_session _ stored, ?_⟩
          rcases stored with there | creates | ends
          · exact ⟨index, Or.inr ⟨sessionId, fits, Or.inl there⟩⟩
          · exact ⟨index, Or.inr ⟨sessionId, fits, Or.inr creates⟩⟩
          · exact ends
  | disconnectFound address =>
      refine ⟨traced.of_ends fits fun other isIndexed => ?_, trivial⟩
      simp only [SessionCall.act] at isIndexed
      rw [FinMap.lookup_erase_eq] at isIndexed
      split at isIndexed
      next => simp at isIndexed
      next => exact isIndexed
  | cleanupExpired now order => exact ⟨traced, fits⟩
  | cleanupLocked now order =>
      exact ⟨traced.of_ends ⟨index, Or.inl ⟨now, order, fits⟩⟩
          fun _ after => isSome_of_cleanupExpired order now after,
        trivial⟩
  | getSessionByAddress address =>
      simp only [SessionCall.act]
      cases isIndexed : manager.addressIndex.lookup address with
      | none => exact ⟨traced, trivial⟩
      | some sessionId => exact ⟨traced, fits, traced.indexed address (by simp [isIndexed])⟩
  | getFound address sessionId => exact ⟨traced, trivial⟩
  | release held next =>
      rcases held with _ | ⟨first, _ | ⟨second, rest⟩⟩ <;> exact ⟨traced, fits⟩
  | returned reply => exact ⟨traced, trivial⟩

end SessionCall

-----------------------------------------------------------------------------------------
-- Every deadlock has calls that cross
-----------------------------------------------------------------------------------------

open SessionCall

variable {keccak256 : Bytes → B256} {manager : SessionManager} {requests : ι → SessionRequest}

/-- The calls before any of them takes a step. -/
def SessionManager.startCalls (manager : SessionManager) (requests : ι → SessionRequest)
    : Config ι SessionCall SessionManager :=
  { tasks := fun call => (requests call).start, shared := manager }

theorem fits_start (among : ι → Prop) (request : SessionRequest)
    : request.start.Fits keccak256 manager requests among request := by
  cases request <;> rfl

theorem traced_start (among : ι → Prop) : Traced keccak256 manager requests among manager where
  indexed _ isIndexed := Or.inl isIndexed
  stored _ isStored := Or.inl isStored
  existing := Or.inr fun _ _ isFirst => isFirst

/-- Where the calls stand and what they left behind, after any interleaving. -/
theorem traced_reachable [DecidableEq ι] {config : Config ι SessionCall SessionManager}
    (reachable : Reachable discipline (act keccak256) (manager.startCalls requests) config)
    : Traced keccak256 manager requests (fun call => (config.tasks call).Past) config.shared
      ∧ ∀ call,
          (config.tasks call).Fits keccak256 manager requests
            (fun call => (config.tasks call).Past) (requests call) := by
  refine reachable.invariant
    (fun config =>
      Traced keccak256 manager requests (fun call => (config.tasks call).Past) config.shared
      ∧ ∀ call,
          (config.tasks call).Fits keccak256 manager requests
            (fun call => (config.tasks call).Past) (requests call))
    ?_ ⟨traced_start _, fun call => fits_start _ _⟩
  intro before call ⟨traced, fits⟩ _ _
  obtain ⟨tracedNext, fitsNext⟩ := traced.act (fits call) id
  have le
      : ∀ other,
          (before.tasks other).Past
          → ((before.step (act keccak256) call).tasks other).Past := by
    intro other isPast
    by_cases same : other = call
    · subst same
      rw [Config.tasks_step_self]
      exact past_act isPast _
    · rwa [Config.tasks_step_of_ne same]
  refine ⟨tracedNext.mono le, fun other => ?_⟩
  by_cases same : other = call
  · subst same
    rw [Config.tasks_step_self]
    exact fitsNext.mono le
  · rw [Config.tasks_step_of_ne same]
    exact (fits other).mono le

/-- The sessions before the index. -/
def SessionLock.rank : SessionLock → Nat
  | .sessions => 0
  | .addressIndex => 1

theorem SessionCall.holds_of_finished (call : SessionCall) (finished : discipline.finished call)
    : discipline.holds call = [] := by
  obtain ⟨reply, rfl⟩ := finished
  rfl

/-- The calls that hold one lock while they wait for the other, by the order of the two. -/
theorem SessionCall.crossing {call : SessionCall} {lock lock' : SessionLock} {mode mode' : Mode}
    (wants : discipline.wants call = some (lock, mode))
    (held : (lock', mode') ∈ discipline.holds call)
    : (lock = .sessions ∧ lock' = .addressIndex
        ∧ ((∃ now address existingId, call = .connectFound now address existingId)
          ∨ ∃ address sessionId, call = .getFound address sessionId))
      ∨ (lock = .addressIndex ∧ lock' = .sessions
        ∧ ((∃ address, call = .disconnectFound address)
          ∨ ∃ now order, call = .cleanupLocked now order)) := by
  cases call <;> simp_all [discipline, SessionCall.wants, SessionCall.holds]

theorem crossesLocks_of_deadlock [Finite ι] [DecidableEq ι]
    {config : Config ι SessionCall SessionManager}
    (reachable : Reachable discipline (act keccak256) (manager.startCalls requests) config)
    (deadlock : Deadlock discipline config)
    : manager.CrossesLocks keccak256 requests := by
  obtain ⟨traced, fits⟩ := traced_reachable reachable
  have ends
      : manager.Ends keccak256 requests (fun call => (config.tasks call).Past) := by
    obtain ⟨ender, lock, mode, lock', mode', wants, held, ranked⟩ :=
      deadlock.exists_out_of_order SessionCall.holds_of_finished (fun lock => 1 - lock.rank)
    have fitsEnder := fits ender
    rcases SessionCall.crossing wants held with
      ⟨rfl, rfl, _⟩ | ⟨_, _, ⟨address, stands⟩ | ⟨now, order, stands⟩⟩
    · simp [SessionLock.rank] at ranked
    · rw [stands] at fitsEnder
      exact fitsEnder
    · rw [stands] at fitsEnder
      exact ⟨ender, Or.inl ⟨now, order, fitsEnder⟩⟩
  obtain ⟨follower, lock, mode, lock', mode', wants, held, ranked⟩ :=
    deadlock.exists_out_of_order SessionCall.holds_of_finished SessionLock.rank
  have fitsFollower := fits follower
  have le (follows : ¬ (config.tasks follower).Past)
      : ∀ call, (config.tasks call).Past → call ≠ follower :=
    fun call isPast same => follows (same ▸ isPast)
  rcases SessionCall.crossing wants held with
    ⟨_, _, ⟨now, address, existingId, stands⟩ | ⟨address, sessionId, stands⟩⟩ | ⟨rfl, rfl, _⟩
  · rw [stands] at fitsFollower le
    obtain ⟨isRequest, indexes, _⟩ := fitsFollower
    exact ⟨follower, address, by rw [isRequest]; rfl, indexes.mono (le id), ends.mono (le id)⟩
  · rw [stands] at fitsFollower le
    obtain ⟨isRequest, indexes⟩ := fitsFollower
    exact ⟨follower, address, by rw [isRequest]; rfl, indexes.mono (le id), ends.mono (le id)⟩
  · simp [SessionLock.rank] at ranked

-----------------------------------------------------------------------------------------
-- Calls that cross reach a deadlock
-----------------------------------------------------------------------------------------

/-- Every call is yet to start or has returned, and the connections that have returned left
their addresses in the index.
-/
structure BetweenCalls (requests : ι → SessionRequest)
    (config : Config ι SessionCall SessionManager) : Prop where
  rests
    : ∀ call,
        config.tasks call = (requests call).start ∨ discipline.finished (config.tasks call)
  connected
    : ∀ call now address, requests call = .connect now address →
        config.tasks call = (requests call).start
        ∨ (config.shared.addressIndex.lookup address).isSome = true

theorem betweenCalls_start : BetweenCalls requests (manager.startCalls requests) where
  rests _ := Or.inl rfl
  connected _ _ _ _ := Or.inl rfl

theorem BetweenCalls.idle {config : Config ι SessionCall SessionManager}
    (between : BetweenCalls requests config) (call : ι)
    : discipline.holds (config.tasks call) = [] := by
  rcases between.rests call with stands | finished
  · rw [stands]
    exact SessionCall.holds_start _
  · exact SessionCall.holds_of_finished _ finished

theorem isSome_connect (now : UInt64) (address : String) (manager : SessionManager)
    : ((manager.connect keccak256 now address).2.addressIndex.lookup address).isSome = true := by
  unfold SessionManager.connect
  cases existed : manager.existingSession address with
  | none => simp
  | some first =>
      have isIndexed := (SessionManager.existingSession_eq_some.mp existed).1
      simp [isIndexed]

theorem isSome_connect_of (now : UInt64) (address other : String)
    (before : (manager.addressIndex.lookup other).isSome = true)
    : ((manager.connect keccak256 now address).2.addressIndex.lookup other).isSome = true := by
  unfold SessionManager.connect
  cases existed : manager.existingSession address with
  | none =>
      simp only
      rw [FinMap.lookup_insert_eq]
      split
      next => rfl
      next => exact before
  | some first => exact before

/-- A connection that has not started yet can be the next one to run. -/
theorem BetweenCalls.connect (keccak256 : Bytes → B256) [DecidableEq ι]
    {config : Config ι SessionCall SessionManager} (between : BetweenCalls requests config)
    {call : ι} {now : UInt64} {address : String}
    (isRequest : requests call = .connect now address)
    (notStarted : config.tasks call = (requests call).start)
    : ∃ after, Reachable discipline (act keccak256) config after
        ∧ BetweenCalls requests after
        ∧ (∀ other, other ≠ call → after.tasks other = config.tasks other)
        ∧ after.shared = (config.shared.connect keccak256 now address).2 := by
  have stays
      : ∀ call manager,
          discipline.finished call → act keccak256 call manager = (call, manager) := by
    rintro _ manager ⟨reply, rfl⟩
    rfl
  have reachable : Reachable discipline (act keccak256) config _ :=
    reachable_alone call 8 (fun other _ => between.idle other) stays
  rw [notStarted, isRequest] at reachable
  simp only [SessionRequest.start, alone_connect] at reachable
  refine ⟨_, reachable, ⟨fun other => ?_, fun other now' address' isRequest' => ?_⟩, ?_, rfl⟩
  · by_cases same : other = call
    · subst same
      exact Or.inr ⟨_, Function.update_self _ _ _⟩
    · simp only [Function.update_of_ne same]
      exact between.rests other
  · by_cases same : other = call
    · subst same
      obtain ⟨rfl, rfl⟩ : now = now' ∧ address = address' := by
        simpa [isRequest] using isRequest'
      exact Or.inr (isSome_connect _ _ _)
    · simp only [Function.update_of_ne same]
      exact (between.connected other now' address' isRequest').imp id
        (fun before => isSome_connect_of now address address' before)
  · intro other different
    exact Function.update_of_ne different _ _

/-- A call that ends a session, before it starts. -/
def WillEnd (requests : ι → SessionRequest) (manager : SessionManager) (call : ι) : Prop :=
  (∃ now order, requests call = .cleanupExpired now order)
  ∨ ∃ sessionId,
      requests call = .disconnect sessionId
      ∧ (manager.sessions.lookup sessionId).isSome = true

theorem WillEnd.connect {call : ι} (ends : WillEnd requests manager call) (now : UInt64)
    (address : String)
    : WillEnd requests (manager.connect keccak256 now address).2 call := by
  refine ends.imp id (fun ⟨sessionId, isRequest, there⟩ => ⟨sessionId, isRequest, ?_⟩)
  unfold SessionManager.connect
  split
  next =>
    simp only
    rw [FinMap.lookup_modify]
    split <;> simpa using there
  next =>
    simp only
    rw [FinMap.lookup_insert_eq]
    split
    next => rfl
    next => exact there

/-- A call that finds its address in the index reads the index and wants the sessions. -/
theorem act_follows (keccak256 : Bytes → B256) {request : SessionRequest} {address : String}
    (isRequest : request.follows = some address)
    (isIndexed : (manager.addressIndex.lookup address).isSome = true)
    : discipline.wants request.start = some (.addressIndex, .read)
      ∧ (request.start.act keccak256 manager).2 = manager
      ∧ ¬ discipline.finished request.start
      ∧ ¬ discipline.finished (request.start.act keccak256 manager).1
      ∧ discipline.holds (request.start.act keccak256 manager).1 = [(.addressIndex, .read)]
      ∧ ∃ mode,
          discipline.wants (request.start.act keccak256 manager).1 = some (.sessions, mode) := by
  obtain ⟨sessionId, found⟩ := Option.isSome_iff_exists.mp isIndexed
  cases request with
  | connect now other | getSessionByAddress other =>
      obtain rfl := Option.some.inj isRequest
      simp [discipline, SessionRequest.start, SessionCall.act, SessionCall.wants,
        SessionCall.holds, found]
  | disconnect sessionId | cleanupExpired now order => simp [SessionRequest.follows] at isRequest

/-- A call that finds a session to end holds the sessions and wants the index. -/
theorem act_willEnd (keccak256 : Bytes → B256) {ender : ι}
    (willEnd : WillEnd requests manager ender)
    : discipline.wants (requests ender).start = some (.sessions, .write)
      ∧ ¬ discipline.finished (requests ender).start
      ∧ discipline.holds ((requests ender).start.act keccak256 manager).1
        = [(.sessions, .write)]
      ∧ discipline.wants ((requests ender).start.act keccak256 manager).1
        = some (.addressIndex, .write) := by
  rcases willEnd with ⟨now, order, isRequest⟩ | ⟨sessionId, isRequest, there⟩
  · rw [isRequest]
    simp [discipline, SessionRequest.start, SessionCall.act, SessionCall.wants,
      SessionCall.holds]
  · obtain ⟨session, found⟩ := Option.isSome_iff_exists.mp there
    rw [isRequest]
    simp [discipline, SessionRequest.start, SessionCall.act, SessionCall.wants,
      SessionCall.holds, found]

variable [DecidableEq ι]

/-- Some calls can run until there is a session to end. -/
theorem exists_willEnd {follower : ι}
    (ends : manager.Ends keccak256 requests (· ≠ follower))
    : ∃ config ender,
        Reachable discipline (act keccak256) (manager.startCalls requests) config
        ∧ BetweenCalls requests config
        ∧ config.tasks follower = (requests follower).start
        ∧ config.tasks ender = (requests ender).start
        ∧ WillEnd requests config.shared ender
        ∧ ∀ address, (manager.addressIndex.lookup address).isSome = true →
            (config.shared.addressIndex.lookup address).isSome = true := by
  obtain ⟨ender, sweep | ⟨sessionId, isRequest, there | creates⟩⟩ := ends
  · exact ⟨_, ender, .refl, betweenCalls_start, rfl, rfl, Or.inl sweep, fun _ => id⟩
  · exact ⟨_, ender, .refl, betweenCalls_start, rfl, rfl,
      Or.inr ⟨sessionId, isRequest, there⟩, fun _ => id⟩
  · obtain ⟨creator, now, address, isConnect, noSession, sameId, different⟩ := creates
    have starts : BetweenCalls requests (manager.startCalls requests) := betweenCalls_start
    obtain ⟨config, reachable, between, others, shared⟩ :=
      starts.connect keccak256 isConnect rfl
    have notCreator : ender ≠ creator := by
      rintro rfl
      rw [isRequest] at isConnect
      simp at isConnect
    refine ⟨config, ender, reachable, between, others _ different.symm, others _ notCreator,
      Or.inr ⟨sessionId, isRequest, ?_⟩, fun other isIndexed => ?_⟩
    · rw [shared]
      unfold SessionManager.startCalls SessionManager.connect
      simp [noSession, sameId]
    · rw [shared]
      exact isSome_connect_of now address other isIndexed

/-- More calls can run until the index has the address that the follower looks up. -/
theorem exists_indexed (keccak256 : Bytes → B256)
    {config : Config ι SessionCall SessionManager} {follower ender : ι} {address : String}
    (between : BetweenCalls requests config)
    (follows : config.tasks follower = (requests follower).start)
    (ends : config.tasks ender = (requests ender).start)
    (willEnd : WillEnd requests config.shared ender)
    (indexes
      : (config.shared.addressIndex.lookup address).isSome = true
        ∨ ∃ call now, requests call = .connect now address ∧ call ≠ follower)
    : ∃ after,
        Reachable discipline (act keccak256) config after
        ∧ BetweenCalls requests after
        ∧ after.tasks follower = (requests follower).start
        ∧ after.tasks ender = (requests ender).start
        ∧ WillEnd requests after.shared ender
        ∧ (after.shared.addressIndex.lookup address).isSome = true := by
  rcases indexes with isIndexed | ⟨call, now, isConnect, different⟩
  · exact ⟨config, .refl, between, follows, ends, willEnd, isIndexed⟩
  · rcases between.connected call now address isConnect with notStarted | isIndexed
    · obtain ⟨after, reachable, betweenAfter, others, shared⟩ :=
        between.connect keccak256 isConnect notStarted
      have notConnect : ender ≠ call := by
        rintro rfl
        rcases willEnd with ⟨_, _, isRequest⟩ | ⟨_, isRequest, _⟩ <;> simp [isConnect] at isRequest
      refine ⟨after, reachable, betweenAfter, ?_, ?_, ?_, ?_⟩
      · rw [others _ different.symm, follows]
      · rw [others _ notConnect, ends]
      · rw [shared]
        exact willEnd.connect now address
      · rw [shared]
        exact isSome_connect now address _
    · exact ⟨config, .refl, between, follows, ends, willEnd, isIndexed⟩

/-- Calls between which nothing is locked get stuck when one has found its address in the index
and another one has found the session that it ends.
-/
theorem deadlock_of_crossing (keccak256 : Bytes → B256) [Fintype ι]
    {config : Config ι SessionCall SessionManager} {follower ender : ι} {address : String}
    (between : BetweenCalls requests config)
    (follows : config.tasks follower = (requests follower).start)
    (ends : config.tasks ender = (requests ender).start)
    (willEnd : WillEnd requests config.shared ender)
    (isRequest : (requests follower).follows = some address)
    (isIndexed : (config.shared.addressIndex.lookup address).isSome = true)
    : ∃ last, Reachable discipline (act keccak256) config last ∧ Deadlock discipline last := by
  obtain ⟨_, same, unfinished, unfinished', held, mode, wants⟩ :=
    act_follows keccak256 isRequest isIndexed
  obtain ⟨wantsFirst, enderUnfinished, enderHeld, enderWants⟩ :=
    act_willEnd keccak256 willEnd
  have different : ender ≠ follower := by
    rintro rfl
    rcases willEnd with ⟨_, _, isEnd⟩ | ⟨_, isEnd, _⟩ <;>
      simp [isEnd, SessionRequest.follows] at isRequest
  rw [← follows] at same unfinished unfinished' held wants
  let followed := config.step (act keccak256) follower
  have toFollowed : Step discipline (act keccak256) config followed := by
    refine .step follower unfinished ?_
    rintro ⟨other, _, lock, _, mode', _, isHeld, _⟩
    rw [between.idle other] at isHeld
    exact List.not_mem_nil isHeld
  have enderStands : followed.tasks ender = (requests ender).start := by
    rw [Config.tasks_step_of_ne different, ends]
  let crossed := followed.step (act keccak256) ender
  have toCrossed : Step discipline (act keccak256) followed crossed := by
    refine .step ender (by rwa [enderStands]) ?_
    rintro ⟨other, _, lock, mode', mode'', isWanted, isHeld, _⟩
    rw [enderStands, wantsFirst] at isWanted
    by_cases isFollower : other = follower
    · subst isFollower
      rw [Config.tasks_step_self, held] at isHeld
      simp_all
    · rw [Config.tasks_step_of_ne isFollower, between.idle other] at isHeld
      exact List.not_mem_nil isHeld
  have followerAt : crossed.tasks follower
      = (SessionCall.act keccak256 (config.tasks follower) config.shared).1 := by
    rw [Config.tasks_step_of_ne different.symm, Config.tasks_step_self]
  have enderAt : crossed.tasks ender
      = (SessionCall.act keccak256 (requests ender).start config.shared).1 := by
    rw [Config.tasks_step_self, enderStands]
    exact congrArg (fun manager => (SessionCall.act keccak256 _ manager).1) same
  obtain ⟨last, reachable, deadlock⟩ :=
    @exists_deadlock _ _ _ _ _ discipline (act keccak256) _ crossed SessionCall.remaining
      (fun call manager unfinished => remaining_act call manager unfinished) _ _ different.symm
      (by rwa [followerAt])
      ⟨.sessions, mode, .write, by rw [followerAt, wants], by rw [enderAt, enderHeld]; simp,
        Or.inr rfl⟩
      ⟨.addressIndex, .write, .read, by rw [enderAt, enderWants],
        by rw [followerAt, held]; simp, Or.inl rfl⟩
  exact ⟨last, .head toFollowed (.head toCrossed reachable), deadlock⟩

theorem exists_deadlock_of_crossesLocks [Fintype ι]
    (crosses : manager.CrossesLocks keccak256 requests)
    : ∃ config, Reachable discipline (act keccak256) (manager.startCalls requests) config
        ∧ Deadlock discipline config := by
  obtain ⟨follower, address, isRequest, indexes, ends⟩ := crosses
  obtain ⟨config, ender, toConfig, between, follows, enders, willEnd, keepsIndex⟩ :=
    exists_willEnd ends
  obtain ⟨after, toAfter, betweenAfter, followsAfter, endsAfter, willEndAfter, isIndexed⟩ :=
    exists_indexed keccak256 between follows enders willEnd
      (indexes.imp (keepsIndex address) id)
  obtain ⟨last, toLast, deadlock⟩ :=
    deadlock_of_crossing keccak256 betweenAfter followsAfter endsAfter
      willEndAfter isRequest isIndexed
  exact ⟨last, toConfig.trans (toAfter.trans toLast), deadlock⟩

/-- No interleaving of the calls is a deadlock exactly when no call that follows the index runs
next to one that ends a session.
-/
theorem sessionLocks_iff [Fintype ι]
    : (∀ config,
          Reachable discipline (act keccak256) (manager.startCalls requests) config
          → ¬ Deadlock discipline config)
      ↔ ¬ manager.CrossesLocks keccak256 requests := by
  constructor
  · intro free crosses
    obtain ⟨config, reachable, deadlock⟩ := exists_deadlock_of_crossesLocks crosses
    exact free config reachable deadlock
  · intro apart config reachable deadlock
    exact apart (crossesLocks_of_deadlock reachable deadlock)

/-- A player reconnects while the session that the player had is being disconnected. -/
theorem sessionLocks_fails
    : ¬ ∀ config,
          Reachable discipline (act (fun _ => 0))
            (((SessionManager.new 300).connect (fun _ => 0) 0 "a").2.startCalls
              ![SessionRequest.connect 1 "a",
                .disconnect (generateSessionId (fun _ => 0) "a" 0)])
            config
          → ¬ Deadlock discipline config := by
  intro free
  have crosses
      : ((SessionManager.new 300).connect (fun _ => 0) 0 "a").2.CrossesLocks (fun _ => 0)
          ![SessionRequest.connect 1 "a",
            .disconnect (generateSessionId (fun _ => 0) "a" 0)] :=
    ⟨0, "a", rfl, Or.inl (isSome_connect _ _ _),
      1, Or.inr ⟨generateSessionId (fun _ => 0) "a" 0, rfl, Or.inl (by decide)⟩⟩
  obtain ⟨config, reachable, deadlock⟩ := exists_deadlock_of_crossesLocks crosses
  exact free config reachable deadlock

end VeloChain
