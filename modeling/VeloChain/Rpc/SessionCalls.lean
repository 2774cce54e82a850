import VeloChain.Lib.Locks
import VeloChain.Rpc.Session

/-! Calls of the session manager that run at the same time.
The two maps have a lock each. Taking a lock is one step, with what the call does until it lets
go of a lock or takes the next one; letting go of a lock is another step.
-/

namespace VeloChain

open Locks

inductive SessionLock
  | sessions
  | addressIndex
  deriving DecidableEq

/-- The calls that take both locks. -/
inductive SessionRequest
  | connect (now : UInt64) (address : String)
  | disconnect (sessionId : String)
  | cleanupExpired (now : UInt64) (order : IterationOrder String SessionInfo)
  | getSessionByAddress (address : String)

/-- Where a call stands: before it takes or lets go of a lock, or returned. -/
inductive SessionCall
  | connect (now : UInt64) (address : String)
  | connectFound (now : UInt64) (address existingId : String)
  | connectCreate (now : UInt64) (address : String)
  | connectIndex (address sessionId : String)
  | disconnect (sessionId : String)
  | disconnectFound (address : String)
  | cleanupExpired (now : UInt64) (order : IterationOrder String SessionInfo)
  | cleanupLocked (now : UInt64) (order : IterationOrder String SessionInfo)
  | getSessionByAddress (address : String)
  | getFound (address sessionId : String)
  | release (held : List (SessionLock × Mode)) (next : SessionCall)
  | returned (reply : SessionReply)

/-- A call before its first step. -/
def SessionRequest.start : SessionRequest → SessionCall
  | .connect now address => .connect now address
  | .disconnect sessionId => .disconnect sessionId
  | .cleanupExpired now order => .cleanupExpired now order
  | .getSessionByAddress address => .getSessionByAddress address

namespace SessionCall

/-- The locks that a call holds. -/
def holds : SessionCall → List (SessionLock × Mode)
  | .connectFound _ _ _ | .getFound _ _ => [(.addressIndex, .read)]
  | .disconnectFound _ | .cleanupLocked _ _ => [(.sessions, .write)]
  | .release held _ => held
  | _ => []

/-- The lock that a call takes next. -/
def wants : SessionCall → Option (SessionLock × Mode)
  | .connect _ _ | .getSessionByAddress _ => some (.addressIndex, .read)
  | .connectFound _ _ _ | .connectCreate _ _ | .disconnect _ | .cleanupExpired _ _ =>
      some (.sessions, .write)
  | .connectIndex _ _ | .disconnectFound _ | .cleanupLocked _ _ => some (.addressIndex, .write)
  | .getFound _ _ => some (.sessions, .read)
  | .release _ _ | .returned _ => none

/-- The locks of the session manager as its calls use them. -/
def discipline : Discipline SessionLock SessionCall where
  holds := holds
  wants := wants
  finished call := ∃ reply, call = .returned reply

/-- The next step of a call. -/
def act (keccak256 : Bytes → B256) : SessionCall → SessionManager → SessionCall × SessionManager
  | .connect now address, manager =>
      match manager.addressIndex.lookup address with
      | some existingId => (.connectFound now address existingId, manager)
      | none => (.release [(.addressIndex, .read)] (.connectCreate now address), manager)
  | .connectFound now address existingId, manager =>
      -- the guard of the sessions is dropped before the guard of the index
      let held := [(.sessions, .write), (.addressIndex, .read)]
      match manager.sessions.lookup existingId with
      | some session =>
          (.release held (.returned (.sessionId existingId)),
            { manager with
              sessions := manager.sessions.insert existingId (session.reactivate now) })
      | none => (.release held (.connectCreate now address), manager)
  | .connectCreate now address, manager =>
      let sessionId := generateSessionId keccak256 address now
      (.release [(.sessions, .write)] (.connectIndex address sessionId),
        { manager with
          sessions :=
            manager.sessions.insert sessionId
              (SessionManager.newSession sessionId address now) })
  | .connectIndex address sessionId, manager =>
      (.release [(.addressIndex, .write)] (.returned (.sessionId sessionId)),
        { manager with addressIndex := manager.addressIndex.insert address sessionId })
  | .disconnect sessionId, manager =>
      match manager.sessions.lookup sessionId with
      | some session =>
          (.disconnectFound session.address,
            { manager with
              sessions := manager.sessions.insert sessionId { session with isActive := false } })
      | none => (.release [(.sessions, .write)] (.returned (.done false)), manager)
  | .disconnectFound address, manager =>
      (.release [(.addressIndex, .write), (.sessions, .write)] (.returned (.done true)),
        { manager with addressIndex := manager.addressIndex.erase address })
  | .cleanupExpired now order, manager => (.cleanupLocked now order, manager)
  | .cleanupLocked now order, manager =>
      (.release [(.addressIndex, .write), (.sessions, .write)]
          (.returned (.cleaned (manager.cleanupExpired order now).1)),
        (manager.cleanupExpired order now).2)
  | .getSessionByAddress address, manager =>
      match manager.addressIndex.lookup address with
      | some sessionId => (.getFound address sessionId, manager)
      | none => (.release [(.addressIndex, .read)] (.returned (.session none)), manager)
  | .getFound _ sessionId, manager =>
      (.release [(.addressIndex, .read), (.sessions, .read)]
          (.returned (.session (manager.sessions.lookup sessionId))),
        manager)
  | .release (_ :: next :: rest) after, manager => (.release (next :: rest) after, manager)
  | .release _ after, manager => (after, manager)
  | .returned reply, manager => (.returned reply, manager)

variable {keccak256 : Bytes → B256} {manager : SessionManager}

-----------------------------------------------------------------------------------------
-- Calls on their own
-----------------------------------------------------------------------------------------

/-- A connection that is left alone is the connection of the sequential manager. -/
theorem alone_connect (now : UInt64) (address : String) (manager : SessionManager)
    : alone (act keccak256) 8 (.connect now address) manager
      = (.returned (.sessionId (manager.connect keccak256 now address).1),
          (manager.connect keccak256 now address).2) := by
  unfold SessionManager.connect SessionManager.existingSession
  cases indexed : manager.addressIndex.lookup address with
  | none => simp only [alone, act, indexed, Option.filter_none]
  | some existingId =>
      cases found : manager.sessions.lookup existingId with
      | none =>
          simp only [alone, act, indexed, found, Option.filter_some, Option.isSome_none,
            Bool.false_eq_true, if_false]
      | some session =>
          simp only [alone, act, indexed, found, Option.filter_some, Option.isSome_some, if_true,
            FinMap.modify]

/-- The same for a disconnection. -/
theorem alone_disconnect (sessionId : String) (manager : SessionManager)
    : alone (act keccak256) 4 (.disconnect sessionId) manager
      = (.returned (.done (manager.disconnect sessionId).1),
          (manager.disconnect sessionId).2) := by
  unfold SessionManager.disconnect SessionManager.deactivate
  cases found : manager.sessions.lookup sessionId with
  | none => simp only [alone, act, found]
  | some session => simp only [alone, act, found]

/-- The same for a sweep. -/
theorem alone_cleanupExpired (now : UInt64) (order : IterationOrder String SessionInfo)
    (manager : SessionManager)
    : alone (act keccak256) 4 (.cleanupExpired now order) manager
      = (.returned (.cleaned (manager.cleanupExpired order now).1),
          (manager.cleanupExpired order now).2) :=
  rfl

/-- The same for a lookup. -/
theorem alone_getSessionByAddress (address : String) (manager : SessionManager)
    : alone (act keccak256) 4 (.getSessionByAddress address) manager
      = (.returned (.session (manager.getSessionByAddress address)), manager) := by
  unfold SessionManager.getSessionByAddress
  cases indexed : manager.addressIndex.lookup address with
  | none => simp only [alone, act, indexed, Option.bind_none]
  | some sessionId => simp only [alone, act, indexed, Option.bind_some]

/-- A bound on the steps that a call can still take. -/
def remaining : SessionCall → Nat
  | .connect _ _ => 11
  | .connectFound _ _ _ => 10
  | .connectCreate _ _ => 6
  | .connectIndex _ _ => 3
  | .disconnect _ | .cleanupExpired _ _ | .getSessionByAddress _ => 5
  | .disconnectFound _ | .cleanupLocked _ _ | .getFound _ _ => 4
  | .release held next => held.length + 1 + next.remaining
  | .returned _ => 0

/-- Every step of a call that has not returned brings it nearer to its end. -/
theorem remaining_act (call : SessionCall) (manager : SessionManager)
    (unfinished : ¬ discipline.finished call)
    : (act keccak256 call manager).1.remaining < call.remaining := by
  cases call with
  | connect now address | connectFound now address existingId | disconnect sessionId
  | getSessionByAddress address =>
      simp only [act]
      split <;> simp [remaining]
  | connectCreate now address | connectIndex address sessionId | disconnectFound address
  | cleanupExpired now order | cleanupLocked now order | getFound address sessionId =>
      simp [act, remaining]
  | release held next =>
      rcases held with _ | ⟨first, _ | ⟨second, rest⟩⟩ <;> simp [act, remaining]
  | returned reply => exact absurd ⟨reply, rfl⟩ unfinished

theorem holds_start (request : SessionRequest) : request.start.holds = [] := by
  cases request <;> rfl

end SessionCall

end VeloChain
