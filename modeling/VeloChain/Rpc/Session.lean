import VeloChain.Lib.HashMapOrder
import VeloChain.Primitives.Types

/-! Player sessions of the RPC server.
A player is looked up by session and by address. Sessions stay in their map when they end; an
address is in the index as long as its session is active.
-/

namespace VeloChain

/-- Session information stored server-side. -/
structure SessionInfo where
  sessionId : String
  address : String
  connectedAt : UInt64
  lastActivity : UInt64
  isActive : Bool
  deriving DecidableEq

/-- All player sessions by id, and the session ids of addresses. -/
structure SessionManager where
  sessions : FinMap String SessionInfo
  addressIndex : FinMap String String
  timeoutSecs : UInt64

/-- Generate a session ID from address and timestamp. -/
def generateSessionId (keccak256 : Bytes → B256) (address : String) (timestamp : UInt64)
    : String :=
  let hash := hashSlice (keccak256 s!"{address}:{timestamp}".toUTF8.toList)
  "session_" ++ hexEncode (hash.take 16)

/-- Mark a session as used now, and as active. -/
def SessionInfo.reactivate (now : UInt64) (session : SessionInfo) : SessionInfo :=
  { session with lastActivity := now, isActive := true }

/-- Whether a session is active and has been idle for longer than the timeout. -/
def SessionInfo.expired (now timeout : UInt64) (session : SessionInfo) : Bool :=
  session.isActive && now - session.lastActivity > timeout

namespace SessionManager

/-- Create a new session manager. -/
def new (timeoutSecs : UInt64) : SessionManager :=
  { sessions := ∅, addressIndex := ∅, timeoutSecs }

/-- The session that a connection of an address takes over: the indexed one, if it is there. -/
def existingSession (address : String) (manager : SessionManager) : Option String :=
  (manager.addressIndex.lookup address).filter (fun id => (manager.sessions.lookup id).isSome)

/-- A session that starts now. -/
def newSession (sessionId address : String) (now : UInt64) : SessionInfo :=
  { sessionId, address, connectedAt := now, lastActivity := now, isActive := true }

/-- Connect a player, creating a new session or reactivating the existing one. -/
def connect (keccak256 : Bytes → B256) (now : UInt64) (address : String)
    (manager : SessionManager) : String × SessionManager :=
  match manager.existingSession address with
  | some existingId =>
      (existingId,
        { manager with
          sessions := FinMap.modify existingId (SessionInfo.reactivate now) manager.sessions })
  | none =>
      let sessionId := generateSessionId keccak256 address now
      (sessionId,
        { manager with
          sessions := manager.sessions.insert sessionId (newSession sessionId address now)
          addressIndex := manager.addressIndex.insert address sessionId })

/-- End a session: it is not active any more, and its address leaves the index. -/
def deactivate (sessionId : String) (manager : SessionManager) : SessionManager :=
  match manager.sessions.lookup sessionId with
  | none => manager
  | some session =>
      { manager with
        sessions := manager.sessions.insert sessionId { session with isActive := false }
        addressIndex := manager.addressIndex.erase session.address }

/-- Disconnect a player session. -/
def disconnect (sessionId : String) (manager : SessionManager) : Bool × SessionManager :=
  match manager.sessions.lookup sessionId with
  | none => (false, manager)
  | some _ => (true, manager.deactivate sessionId)

/-- Update heartbeat for a session. -/
def heartbeat (now : UInt64) (sessionId : String) (manager : SessionManager)
    : Bool × SessionManager :=
  match manager.sessions.lookup sessionId with
  | none => (false, manager)
  | some session =>
      (true,
        { manager with
          sessions := manager.sessions.insert sessionId { session with lastActivity := now } })

/-- Get session info by session ID. -/
def getSession (sessionId : String) (manager : SessionManager) : Option SessionInfo :=
  manager.sessions.lookup sessionId

/-- Get session by player address. -/
def getSessionByAddress (address : String) (manager : SessionManager) : Option SessionInfo :=
  (manager.addressIndex.lookup address).bind manager.sessions.lookup

/-- Get all active sessions, in the order of the walk. -/
def getActiveSessions (order : IterationOrder String SessionInfo) (manager : SessionManager)
    : List SessionInfo :=
  ((order.keys manager.sessions).filterMap manager.sessions.lookup).filter SessionInfo.isActive

/-- The sessions that have timed out, in the order of the walk. -/
def expiredIds (order : IterationOrder String SessionInfo) (now : UInt64)
    (manager : SessionManager) : List String :=
  (order.keys manager.sessions).filter (fun id =>
    (manager.sessions.lookup id).any (SessionInfo.expired now manager.timeoutSecs))

/-- Clean up timed-out sessions. -/
def cleanupExpired (order : IterationOrder String SessionInfo) (now : UInt64)
    (manager : SessionManager) : Nat × SessionManager :=
  let expired := manager.expiredIds order now
  (expired.length, expired.foldl (fun manager id => manager.deactivate id) manager)

end SessionManager

/-- The calls of a session manager, with the time at which they read the clock. -/
inductive SessionOp
  | connect (now : UInt64) (address : String)
  | disconnect (sessionId : String)
  | heartbeat (now : UInt64) (sessionId : String)
  | cleanupExpired (now : UInt64) (order : IterationOrder String SessionInfo)
  | getSession (sessionId : String)
  | getSessionByAddress (address : String)

/-- What a call returns. -/
inductive SessionReply
  | sessionId (id : String)
  | done (found : Bool)
  | cleaned (count : Nat)
  | session (info : Option SessionInfo)
  deriving DecidableEq

namespace SessionManager

/-- A call of the manager; every call returns. -/
def call (keccak256 : Bytes → B256) : SessionOp → SessionManager
    → Option (SessionReply × SessionManager)
  | .connect now address, manager =>
      some (Prod.map .sessionId id (manager.connect keccak256 now address))
  | .disconnect sessionId, manager =>
      some (Prod.map .done id (manager.disconnect sessionId))
  | .heartbeat now sessionId, manager =>
      some (Prod.map .done id (manager.heartbeat now sessionId))
  | .cleanupExpired now order, manager =>
      some (Prod.map .cleaned id (manager.cleanupExpired order now))
  | .getSession sessionId, manager => some (.session (manager.getSession sessionId), manager)
  | .getSessionByAddress address, manager =>
      some (.session (manager.getSessionByAddress address), manager)

variable {keccak256 : Bytes → B256} {manager : SessionManager} {sessionId : String}

-----------------------------------------------------------------------------------------
-- The maps after an operation
-----------------------------------------------------------------------------------------

theorem deactivate_of_missing (missing : manager.sessions.lookup sessionId = none)
    : manager.deactivate sessionId = manager := by
  simp only [deactivate, missing]

theorem sessions_deactivate {session : SessionInfo}
    (found : manager.sessions.lookup sessionId = some session) (other : String)
    : (manager.deactivate sessionId).sessions.lookup other
      = if other = sessionId then some { session with isActive := false }
        else manager.sessions.lookup other := by
  simp only [deactivate, found, FinMap.lookup_insert_eq]

theorem addressIndex_deactivate {session : SessionInfo}
    (found : manager.sessions.lookup sessionId = some session) (address : String)
    : (manager.deactivate sessionId).addressIndex.lookup address
      = if address = session.address then none else manager.addressIndex.lookup address := by
  simp only [deactivate, found, FinMap.lookup_erase_eq]

theorem disconnect_eq (manager : SessionManager) (sessionId : String)
    : (manager.disconnect sessionId).2 = manager.deactivate sessionId := by
  unfold disconnect
  cases found : manager.sessions.lookup sessionId with
  | none => rw [deactivate_of_missing found]
  | some session => rfl

theorem existingSession_eq_some {address : String}
    : manager.existingSession address = some sessionId
      ↔ manager.addressIndex.lookup address = some sessionId
        ∧ ∃ session, manager.sessions.lookup sessionId = some session := by
  unfold existingSession
  rw [Option.filter_eq_some_iff, Option.isSome_iff_exists]

end SessionManager

end VeloChain
