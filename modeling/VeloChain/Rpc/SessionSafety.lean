import VeloChain.Rpc.SessionDeadlock
import VeloChain.Rpc.SessionIndex

/-! Calls that run at the same time serve the address they are asked for.
A session keeps its address whatever the calls do to it, and no session is lost. So what a call
has read of the sessions stays true while others run, and neither a connection nor a lookup is
answered with a session of another address.
-/

namespace VeloChain

open Interleaving Locks

namespace SessionManager

/-- The session is there and has the address. -/
def Holds (manager : SessionManager) (id address : String) : Prop :=
  ∃ session, manager.sessions.lookup id = some session ∧ session.address = address

/-- The session is there and has the address; in peace it is active. -/
def HoldsActive (manager : SessionManager) (peaceful : Prop) (id address : String) : Prop :=
  ∃ session,
    manager.sessions.lookup id = some session
    ∧ session.address = address
    ∧ (peaceful → session.isActive = true)

/-- No session is lost or gets another address, and in peace none is ended. -/
def Keeps (peaceful : Prop) (before after : SessionManager) : Prop :=
  ∀ id session, before.sessions.lookup id = some session →
    ∃ later,
      after.sessions.lookup id = some later
      ∧ later.address = session.address
      ∧ (peaceful → session.isActive = true → later.isActive = true)

variable {peaceful : Prop} {before after manager : SessionManager} {id address : String}

theorem Keeps.refl (manager : SessionManager) : Keeps peaceful manager manager :=
  fun _ session found => ⟨session, found, rfl, fun _ active => active⟩

theorem Keeps.trans {first second third : SessionManager} (left : Keeps peaceful first second)
    (right : Keeps peaceful second third) : Keeps peaceful first third := by
  intro id session found
  obtain ⟨middle, isThere, same, active⟩ := left id session found
  obtain ⟨later, isLater, same', active'⟩ := right id middle isThere
  exact ⟨later, isLater, same'.trans same, fun peace was => active' peace (active peace was)⟩

theorem Holds.mono (keeps : Keeps peaceful before after) (holds : before.Holds id address)
    : after.Holds id address := by
  obtain ⟨session, found, own⟩ := holds
  obtain ⟨later, isLater, same, -⟩ := keeps id session found
  exact ⟨later, isLater, same.trans own⟩

theorem HoldsActive.mono (keeps : Keeps peaceful before after)
    (holds : before.HoldsActive peaceful id address) : after.HoldsActive peaceful id address := by
  obtain ⟨session, found, own, active⟩ := holds
  obtain ⟨later, isLater, same, stays⟩ := keeps id session found
  exact ⟨later, isLater, same.trans own, fun peace => stays peace (active peace)⟩

theorem HoldsActive.holds (holds : manager.HoldsActive peaceful id address)
    : manager.Holds id address := by
  obtain ⟨session, found, own, -⟩ := holds
  exact ⟨session, found, own⟩

/-- Storing a session under an id keeps the others, and the one before it if it has its address
and is active again.
-/
theorem keeps_insert {session : SessionInfo}
    (same : ∀ old, manager.sessions.lookup id = some old → session.address = old.address)
    (active
      : peaceful →
          ∀ old, manager.sessions.lookup id = some old → old.isActive = true →
            session.isActive = true)
    : Keeps peaceful manager
        { manager with sessions := manager.sessions.insert id session } := by
  intro other old found
  simp only [FinMap.lookup_insert_eq]
  split
  next isId =>
    subst isId
    exact ⟨session, rfl, same old found, fun peace was => active peace old found was⟩
  next => exact ⟨old, found, rfl, fun _ was => was⟩

theorem keeps_deactivate (unrest : ¬ peaceful) (manager : SessionManager) (id : String)
    : Keeps peaceful manager (manager.deactivate id) := by
  cases found : manager.sessions.lookup id with
  | none =>
      rw [deactivate_of_missing found]
      exact .refl manager
  | some session =>
      intro other old isOld
      rw [sessions_deactivate found]
      split
      next isId =>
        subst isId
        obtain rfl := Option.some.inj (found.symm.trans isOld)
        exact ⟨_, rfl, rfl, fun peace => absurd peace unrest⟩
      next => exact ⟨old, isOld, rfl, fun _ was => was⟩

end SessionManager

variable {ι : Type*}

/-- No session gets an id under which one of another address was stored or is created. -/
structure DistinctIds (keccak256 : Bytes → B256) (start : SessionManager)
    (requests : ι → SessionRequest) : Prop where
  stored
    : ∀ call now address owner,
        requests call = .connect now address →
        start.Holds (generateSessionId keccak256 address now) owner → owner = address
  created
    : ∀ call now address call' now' address',
        requests call = .connect now address → requests call' = .connect now' address' →
        generateSessionId keccak256 address now = generateSessionId keccak256 address' now' →
        address = address'

/-- The index leads to sessions of the address, and every session was there at the start or is one
that a call creates for its address.
-/
structure Owned (keccak256 : Bytes → B256) (start : SessionManager)
    (requests : ι → SessionRequest) (manager : SessionManager) : Prop where
  indexed
    : ∀ address id, manager.addressIndex.lookup address = some id → manager.Holds id address
  origin
    : ∀ id address, manager.Holds id address →
        start.Holds id address
        ∨ ∃ call now,
            requests call = .connect now address
            ∧ generateSessionId keccak256 address now = id

/-- An answer to a request. -/
def Answers (peaceful : Prop) (manager : SessionManager)
    : SessionRequest → SessionReply → Prop
  | .connect _ address, .sessionId id => manager.HoldsActive peaceful id address
  | .getSessionByAddress address, .session info => ∀ session, info = some session →
      session.address = address
  | .disconnect _, .done _ | .cleanupExpired _ _, .cleaned _ => True
  | _, _ => False

/-- What a call with a request knows of the sessions where it stands. -/
def SessionCall.Knows (peaceful : Prop) (manager : SessionManager) (request : SessionRequest)
    : SessionCall → Prop
  | .connect now address | .connectCreate now address => request = .connect now address
  | .connectFound now address id =>
      request = .connect now address ∧ manager.Holds id address
  | .connectIndex address id =>
      (∃ now, request = .connect now address) ∧ manager.HoldsActive peaceful id address
  | .disconnect id => request = .disconnect id
  | .disconnectFound _ => ∃ id, request = .disconnect id
  | .cleanupExpired now order | .cleanupLocked now order =>
      request = .cleanupExpired now order
  | .getSessionByAddress address => request = .getSessionByAddress address
  | .getFound address id =>
      request = .getSessionByAddress address ∧ manager.Holds id address
  | .release _ next => next.Knows peaceful manager request
  | .returned reply => Answers peaceful manager request reply

variable {keccak256 : Bytes → B256} {start before after manager : SessionManager}
  {requests : ι → SessionRequest} {peaceful : Prop} {request : SessionRequest}

/-- What is known of the sessions stays true while they are kept. -/
theorem Answers.mono (keeps : SessionManager.Keeps peaceful before after) {reply : SessionReply}
    (answers : Answers peaceful before request reply) : Answers peaceful after request reply := by
  cases request <;> cases reply <;> first | exact answers | exact answers.mono keeps

theorem SessionCall.Knows.mono (keeps : SessionManager.Keeps peaceful before after)
    {call : SessionCall} (knows : call.Knows peaceful before request)
    : call.Knows peaceful after request := by
  induction call with
  | connectFound now address id => exact ⟨knows.1, knows.2.mono keeps⟩
  | connectIndex address id => exact ⟨knows.1, knows.2.mono keeps⟩
  | getFound address id => exact ⟨knows.1, knows.2.mono keeps⟩
  | release held next ih => exact ih knows
  | returned reply => exact Answers.mono keeps knows
  | _ => exact knows

-----------------------------------------------------------------------------------------
-- One step
-----------------------------------------------------------------------------------------

open SessionManager

/-- No call disconnects or sweeps. -/
def Peaceful (requests : ι → SessionRequest) : Prop :=
  ∀ call, (requests call).follows.isSome = true

/-- New index entries lead to sessions of the address, and new sessions are created ones. -/
theorem Owned.mono (owned : Owned keccak256 start requests before)
    (keeps : Keeps peaceful before after)
    (indexed
      : ∀ address id, after.addressIndex.lookup address = some id →
          before.addressIndex.lookup address = some id ∨ after.Holds id address)
    (origin
      : ∀ id address, after.Holds id address →
          before.Holds id address
          ∨ ∃ call now,
              requests call = .connect now address
              ∧ generateSessionId keccak256 address now = id)
    : Owned keccak256 start requests after := by
  refine ⟨fun address id isIndexed => ?_, fun id address holds => ?_⟩
  · rcases indexed address id isIndexed with old | new
    · exact (owned.indexed address id old).mono keeps
    · exact new
  · rcases origin id address holds with old | new
    · exact owned.origin id address old
    · exact .inr new

/-- A session that is stored in place of one with its address changes none of the addresses. -/
theorem holds_of_insert {session : SessionInfo} {id other address : String}
    (holds
      : { manager with sessions := manager.sessions.insert id session }.Holds other address)
    : manager.Holds other address ∨ (other = id ∧ session.address = address) := by
  obtain ⟨found, isThere, own⟩ := holds
  simp only [FinMap.lookup_insert_eq] at isThere
  split at isThere
  next isId =>
    cases isThere
    exact .inr ⟨isId, own⟩
  next => exact .inl ⟨found, isThere, own⟩

/-- Ending a session leaves all addresses as they are. -/
theorem Owned.deactivate (owned : Owned keccak256 start requests manager) (id : String)
    : Owned keccak256 start requests (manager.deactivate id) := by
  cases found : manager.sessions.lookup id with
  | none => rwa [deactivate_of_missing found]
  | some session =>
      refine owned.mono (keeps_deactivate not_false manager id)
        (fun address other isIndexed => .inl ?_) (fun other address holds => .inl ?_)
      · rw [addressIndex_deactivate found] at isIndexed
        split at isIndexed
        next => cases isIndexed
        next => exact isIndexed
      · obtain ⟨later, isLater, own⟩ := holds
        rw [sessions_deactivate found] at isLater
        split at isLater
        next isId =>
          cases isLater
          exact ⟨session, isId ▸ found, own⟩
        next => exact ⟨later, isLater, own⟩

/-- A sweep ends sessions one by one. -/
theorem Owned.cleanupExpired (owned : Owned keccak256 start requests manager)
    (unrest : ¬ peaceful) (order : IterationOrder String SessionInfo) (now : UInt64)
    : Keeps peaceful manager (manager.cleanupExpired order now).2
      ∧ Owned keccak256 start requests (manager.cleanupExpired order now).2 := by
  have each (ids : List String) {before : SessionManager}
      (owned : Owned keccak256 start requests before)
      : Keeps peaceful before (ids.foldl (fun manager id => manager.deactivate id) before)
        ∧ Owned keccak256 start requests
            (ids.foldl (fun manager id => manager.deactivate id) before) := by
    induction ids generalizing before with
    | nil => exact ⟨.refl before, owned⟩
    | cons id rest ih =>
        obtain ⟨keeps, still⟩ := ih (owned.deactivate id)
        exact ⟨(keeps_deactivate unrest before id).trans keeps, still⟩
  exact each _ owned

/-- A session that is stored in place of one with its address keeps what is known of both. -/
theorem Owned.replace (owned : Owned keccak256 start requests manager) {id : String}
    {old : SessionInfo} (found : manager.sessions.lookup id = some old) (session : SessionInfo)
    (same : session.address = old.address)
    (active : peaceful → old.isActive = true → session.isActive = true)
    : Keeps peaceful manager { manager with sessions := manager.sessions.insert id session }
      ∧ Owned keccak256 start requests
          { manager with sessions := manager.sessions.insert id session } := by
  have keeps
      : Keeps peaceful manager
          { manager with sessions := manager.sessions.insert id session } := by
    refine keeps_insert (fun other isOther => ?_) (fun peace other isOther => ?_)
    · obtain rfl := Option.some.inj (found.symm.trans isOther)
      exact same
    · obtain rfl := Option.some.inj (found.symm.trans isOther)
      exact active peace
  refine ⟨keeps, owned.mono keeps (fun _ _ => .inl) (fun other owner holds => .inl ?_)⟩
  rcases holds_of_insert holds with before | ⟨rfl, own⟩
  · exact before
  · exact ⟨old, found, same.symm.trans own⟩

/-- What a step of a call makes of the manager keeps the sessions and their addresses, and the
call knows what it has read.
-/
structure Serves (keccak256 : Bytes → B256) (start : SessionManager)
    (requests : ι → SessionRequest) (manager : SessionManager) (task : ι)
    (outcome : SessionCall × SessionManager) : Prop where
  keeps : Keeps (Peaceful requests) manager outcome.2
  owned : Owned keccak256 start requests outcome.2
  knows : outcome.1.Knows (Peaceful requests) outcome.2 (requests task)

section Steps

variable {task : ι} (owned : Owned keccak256 start requests manager)

include owned

theorem serves_same {next : SessionCall}
    (knows : next.Knows (Peaceful requests) manager (requests task))
    : Serves keccak256 start requests manager task (next, manager) :=
  ⟨.refl manager, owned, knows⟩

theorem serves_connect {now : UInt64} {address : String}
    (isRequest : requests task = .connect now address)
    : Serves keccak256 start requests manager task
        (SessionCall.act keccak256 (.connect now address) manager) := by
  cases indexed : manager.addressIndex.lookup address with
  | none =>
      simp only [SessionCall.act, indexed]
      exact serves_same owned isRequest
  | some existingId =>
      simp only [SessionCall.act, indexed]
      exact serves_same owned ⟨isRequest, owned.indexed address existingId indexed⟩

theorem serves_connectFound {now : UInt64} {address existingId : String}
    (isRequest : requests task = .connect now address)
    (holds : manager.Holds existingId address)
    : Serves keccak256 start requests manager task
        (SessionCall.act keccak256 (.connectFound now address existingId) manager) := by
  obtain ⟨session, found, own⟩ := holds
  simp only [SessionCall.act, found]
  obtain ⟨keeps, still⟩ :=
    owned.replace found (session.reactivate now) rfl (fun _ _ => rfl)
  refine ⟨keeps, still, ?_⟩
  rw [isRequest]
  exact ⟨session.reactivate now, Finmap.lookup_insert _, own, fun _ => rfl⟩

/-- A new session takes its id from no session of another address. -/
theorem serves_connectCreate (distinct : DistinctIds keccak256 start requests) {now : UInt64}
    {address : String} (isRequest : requests task = .connect now address)
    : Serves keccak256 start requests manager task
        (SessionCall.act keccak256 (.connectCreate now address) manager) := by
  have same (old : SessionInfo)
      (isOld : manager.sessions.lookup (generateSessionId keccak256 address now) = some old)
      : address = old.address := by
    rcases owned.origin _ _ ⟨old, isOld, rfl⟩ with stored | ⟨call, at_, isCall, sameId⟩
    · exact (distinct.stored task now address _ isRequest stored).symm
    · exact distinct.created task now address call at_ _ isRequest isCall sameId.symm
  have keeps
      : Keeps (Peaceful requests) manager
          { manager with
            sessions :=
              manager.sessions.insert (generateSessionId keccak256 address now)
                (newSession (generateSessionId keccak256 address now) address now) } :=
    keeps_insert same (fun _ _ _ _ => rfl)
  refine ⟨keeps, owned.mono keeps (fun _ _ => .inl) (fun id owner holds => ?_),
    ⟨now, isRequest⟩, newSession _ address now, Finmap.lookup_insert _, rfl, fun _ => rfl⟩
  rcases holds_of_insert holds with old | ⟨rfl, rfl⟩
  · exact .inl old
  · exact .inr ⟨task, now, isRequest, rfl⟩

theorem serves_connectIndex {now : UInt64} {address sessionId : String}
    (isRequest : requests task = .connect now address)
    (holds : manager.HoldsActive (Peaceful requests) sessionId address)
    : Serves keccak256 start requests manager task
        (SessionCall.act keccak256 (.connectIndex address sessionId) manager) := by
  have keeps
      : Keeps (Peaceful requests) manager
          { manager with addressIndex := manager.addressIndex.insert address sessionId } :=
    .refl manager
  refine ⟨keeps, owned.mono keeps (fun other id isIndexed => ?_) (fun _ _ => .inl), ?_⟩
  · simp only [SessionCall.act, FinMap.lookup_insert_eq] at isIndexed
    split at isIndexed
    next same =>
      cases isIndexed
      exact .inr (same ▸ holds.holds)
    next => exact .inl isIndexed
  · rw [isRequest]
    exact holds

theorem serves_disconnect {sessionId : String} (isRequest : requests task = .disconnect sessionId)
    (unrest : ¬ Peaceful requests)
    : Serves keccak256 start requests manager task
        (SessionCall.act keccak256 (.disconnect sessionId) manager) := by
  cases found : manager.sessions.lookup sessionId with
  | none =>
      simp only [SessionCall.act, found]
      refine serves_same owned ?_
      rw [isRequest]
      trivial
  | some session =>
      simp only [SessionCall.act, found]
      obtain ⟨keeps, still⟩ :=
        owned.replace found { session with isActive := false } rfl
          (fun peace => absurd peace unrest)
      exact ⟨keeps, still, sessionId, isRequest⟩

theorem serves_disconnectFound {sessionId address : String}
    (isRequest : requests task = .disconnect sessionId)
    : Serves keccak256 start requests manager task
        (SessionCall.act keccak256 (.disconnectFound address) manager) := by
  have keeps
      : Keeps (Peaceful requests) manager
          { manager with addressIndex := manager.addressIndex.erase address } :=
    .refl manager
  refine ⟨keeps, owned.mono keeps (fun other id isIndexed => .inl ?_) (fun _ _ => .inl), ?_⟩
  · simp only [SessionCall.act, FinMap.lookup_erase_eq] at isIndexed
    split at isIndexed
    next => cases isIndexed
    next => exact isIndexed
  · rw [isRequest]
    trivial

theorem serves_cleanupLocked {now : UInt64} {order : IterationOrder String SessionInfo}
    (isRequest : requests task = .cleanupExpired now order) (unrest : ¬ Peaceful requests)
    : Serves keccak256 start requests manager task
        (SessionCall.act keccak256 (.cleanupLocked now order) manager) := by
  obtain ⟨keeps, still⟩ := owned.cleanupExpired unrest order now
  refine ⟨keeps, still, ?_⟩
  rw [isRequest]
  trivial

theorem serves_getSessionByAddress {address : String}
    (isRequest : requests task = .getSessionByAddress address)
    : Serves keccak256 start requests manager task
        (SessionCall.act keccak256 (.getSessionByAddress address) manager) := by
  cases indexed : manager.addressIndex.lookup address with
  | none =>
      simp only [SessionCall.act, indexed]
      refine serves_same owned ?_
      rw [isRequest]
      exact fun _ none => by cases none
  | some sessionId =>
      simp only [SessionCall.act, indexed]
      exact serves_same owned ⟨isRequest, owned.indexed address sessionId indexed⟩

theorem serves_getFound {address sessionId : String}
    (isRequest : requests task = .getSessionByAddress address)
    (holds : manager.Holds sessionId address)
    : Serves keccak256 start requests manager task
        (SessionCall.act keccak256 (.getFound address sessionId) manager) := by
  obtain ⟨session, found, own⟩ := holds
  refine serves_same owned ?_
  rw [isRequest]
  intro other isOther
  obtain rfl := Option.some.inj (found.symm.trans isOther)
  exact own

end Steps

/-- A call that ends sessions leaves no peace. -/
theorem not_peaceful {task : ι} (ends : (requests task).follows = none)
    : ¬ Peaceful requests := by
  intro peace
  have follows := peace task
  rw [ends] at follows
  cases follows

/-- One step of a call, which knows what it has read. -/
theorem SessionCall.Knows.act {task : ι} {call : SessionCall}
    (knows : call.Knows (Peaceful requests) manager (requests task))
    (owned : Owned keccak256 start requests manager)
    (distinct : DistinctIds keccak256 start requests)
    : Serves keccak256 start requests manager task (call.act keccak256 manager) := by
  cases call with
  | connect now address => exact serves_connect owned knows
  | connectFound now address existingId => exact serves_connectFound owned knows.1 knows.2
  | connectCreate now address => exact serves_connectCreate owned distinct knows
  | connectIndex address sessionId =>
      obtain ⟨⟨now, isRequest⟩, holds⟩ := knows
      exact serves_connectIndex owned isRequest holds
  | disconnect sessionId =>
      have isRequest : requests task = .disconnect sessionId := knows
      have ends := congrArg SessionRequest.follows isRequest
      exact serves_disconnect owned isRequest (not_peaceful ends)
  | disconnectFound address =>
      obtain ⟨sessionId, isRequest⟩ := knows
      exact serves_disconnectFound owned isRequest
  | cleanupExpired now order => exact serves_same owned knows
  | cleanupLocked now order =>
      have isRequest : requests task = .cleanupExpired now order := knows
      have ends := congrArg SessionRequest.follows isRequest
      exact serves_cleanupLocked owned isRequest (not_peaceful ends)
  | getSessionByAddress address => exact serves_getSessionByAddress owned knows
  | getFound address sessionId => exact serves_getFound owned knows.1 knows.2
  | release held next =>
      rcases held with _ | ⟨first, _ | ⟨second, rest⟩⟩ <;> exact serves_same owned knows
  | returned reply => exact serves_same owned knows

-----------------------------------------------------------------------------------------
-- Interleavings
-----------------------------------------------------------------------------------------

/-- What the calls have done so far: no session is lost or has another address, a connection is
answered with a session of its address that is there still, and active unless some call ends
sessions, and a lookup with a session of its address, if it finds one.
-/
structure CallsServed (start : SessionManager) (requests : ι → SessionRequest)
    (config : Config ι SessionCall SessionManager) : Prop where
  kept : Keeps (Peaceful requests) start config.shared
  connected
    : ∀ call now address id,
        requests call = .connect now address →
        config.tasks call = .returned (.sessionId id) →
        config.shared.HoldsActive (Peaceful requests) id address
  found
    : ∀ call address session,
        requests call = .getSessionByAddress address →
        config.tasks call = .returned (.session (some session)) → session.address = address

theorem knows_start (requests : ι → SessionRequest) (call : ι)
    : (requests call).start.Knows peaceful manager (requests call) := by
  cases requests call <;> rfl

/-- In every interleaving of calls, as many as there may be, the calls are served. -/
theorem calls_served [DecidableEq ι] (wellIndexed : start.WellIndexed)
    (distinct : DistinctIds keccak256 start requests)
    {config : Config ι SessionCall SessionManager}
    (reachable
      : Reachable SessionCall.discipline (SessionCall.act keccak256) (start.startCalls requests)
          config)
    : CallsServed start requests config := by
  have stands
      : Keeps (Peaceful requests) start config.shared
        ∧ Owned keccak256 start requests config.shared
        ∧ ∀ call,
            (config.tasks call).Knows (Peaceful requests) config.shared (requests call) := by
    refine reachable.invariant
      (fun config =>
        Keeps (Peaceful requests) start config.shared
        ∧ Owned keccak256 start requests config.shared
        ∧ ∀ call,
            (config.tasks call).Knows (Peaceful requests) config.shared (requests call))
      ?_ ⟨.refl start, ⟨fun address id isIndexed => ?_, fun _ _ => .inl⟩, knows_start requests⟩
    · rintro before task ⟨keeps, owned, knows⟩ - -
      obtain ⟨more, still, next⟩ := (knows task).act owned distinct
      refine ⟨keeps.trans more, still, fun other => ?_⟩
      by_cases same : other = task
      · subst same
        rw [Config.tasks_step_self]
        exact next
      · rw [Config.tasks_step_of_ne same]
        exact (knows other).mono more
    · obtain ⟨session, found, own, -⟩ := wellIndexed.indexed address id isIndexed
      exact ⟨session, found, own⟩
  obtain ⟨keeps, -, knows⟩ := stands
  refine ⟨keeps, fun call now address id isRequest returned => ?_,
    fun call address session isRequest returned => ?_⟩
  · have answers := knows call
    rwa [returned, isRequest] at answers
  · have answers := knows call
    rw [returned, isRequest] at answers
    exact answers session rfl

/-- Two players connect while the first one is looked up. -/
def arrivals : Option Bool → SessionRequest
  | some false => .connect 0 "a"
  | some true => .connect 0 "b"
  | none => .getSessionByAddress "a"

/-- The first player has connected before the others take a step. -/
theorem calls_served_arrivals
    : CallsServed (new 300) arrivals
        { tasks :=
            Function.update (fun call => (arrivals call).start) (some false)
              (alone (SessionCall.act leadingHash) 8 (.connect 0 "a") (new 300)).1
          shared := (alone (SessionCall.act leadingHash) 8 (.connect 0 "a") (new 300)).2 } := by
  refine @calls_served _ leadingHash (new 300) arrivals _ (wellIndexed_new 300).1
    ⟨?_, ?_⟩ _ (reachable_alone (some false) 8 ?_ ?_)
  · rintro call now address owner - ⟨session, found, -⟩
    simp [new] at found
  · intro call now address call' now' address' isCall isCall' same
    rcases call with _ | _ | _ <;> rcases call' with _ | _ | _ <;> cases isCall <;> cases isCall'
    · rfl
    · exact absurd same (by decide +kernel)
    · exact absurd same (by decide +kernel)
    · rfl
  · exact fun other _ => SessionCall.holds_start (arrivals other)
  · rintro _ manager ⟨reply, rfl⟩
    rfl

end VeloChain
