import Mathlib.Data.List.Count
import VeloChain.Sdk.PlayerSession

/-! The states that a session goes through, in any interleaving of its calls.
The changes that it tells of lead from the first state to the present one. It is connected again
only by a call of `connect`, never by the reconnects of its WebSocket client; nothing makes it
play; and it runs at most one heartbeat, the one that it knows of.
-/

namespace VeloChain

variable {P : Type}

/-- Whether a turn is a call of `connect`. -/
def SessionTurn.isConnect : SessionTurn P → Bool
  | .connect => true
  | _ => false

/-- Whether an event tells that the session has become connected. -/
def SessionEvent.isConnection : SessionEvent P → Bool
  | .stateChanged _ after => after = .connected
  | _ => false

namespace PlayerSession

/-- The changes among some events lead from one state to another, and none to `playing`. -/
def Leads : SessionState → List (SessionEvent P) → SessionState → Prop
  | first, [], last => first = last
  | first, .stateChanged before after :: rest, last =>
      before = first ∧ after ≠ before ∧ after ≠ .playing ∧ Leads after rest last
  | first, _ :: rest, last => Leads first rest last

/-- The calls of `connect` that are in progress. -/
def connects (calls : List CallStage) : Nat := calls.countP (· != .leaving)

variable {config : WsConfig} {session : PlayerSession P}

theorem Leads.append {first middle last : SessionState} {events more : List (SessionEvent P)}
    (begins : Leads first events middle) (ends : Leads middle more last)
    : Leads first (events ++ more) last := by
  induction events generalizing first with
  | nil =>
      have same : first = middle := begins
      rw [same]
      exact ends
  | cons event rest ih =>
      cases event with
      | stateChanged before after =>
          obtain ⟨same, differs, inactive, later⟩ := begins
          exact ⟨same, differs, inactive, ih later⟩
      | connected sessionId => exact ih begins
      | disconnected reason => exact ih begins
      | playerSpawned player => exact ih begins
      | playerUpdated player => exact ih begins
      | error message => exact ih begins

theorem Leads.inactive {first last : SessionState} {events : List (SessionEvent P)}
    (leads : Leads first events last) (begins : first ≠ .playing)
    : last ≠ .playing := by
  induction events generalizing first with
  | nil =>
      have same : first = last := leads
      rwa [← same]
  | cons event rest ih =>
      cases event with
      | stateChanged before after =>
          obtain ⟨-, -, inactive, later⟩ := leads
          exact ih later inactive
      | connected sessionId => exact ih leads begins
      | disconnected reason => exact ih leads begins
      | playerSpawned player => exact ih leads begins
      | playerUpdated player => exact ih leads begins
      | error message => exact ih leads begins

/-- What a turn does to the states, the heartbeat and the calls, of which it adds at most
`started`.
-/
structure Advances (before : PlayerSession P) (started : Nat)
    (course : List (SessionEvent P) × PlayerSession P)
    : Prop where
  leads : Leads before.state course.1 course.2.state
  beats
    : before.intervals = before.heartbeatInterval.toList →
        course.2.intervals = course.2.heartbeatInterval.toList
  connections
    : course.1.countP SessionEvent.isConnection + connects course.2.calls
      ≤ connects before.calls + started

theorem Advances.refl (session : PlayerSession P) (started : Nat)
    : Advances session started ([], session) :=
  ⟨rfl, id, by simp⟩

theorem Advances.trans {first second : PlayerSession P} {events : List (SessionEvent P)}
    {course : List (SessionEvent P) × PlayerSession P} {started also : Nat}
    (one : Advances first started (events, second)) (two : Advances second also course)
    : Advances first (started + also) (events ++ course.1, course.2) where
  leads := one.leads.append two.leads
  beats same := two.beats (one.beats same)
  connections := by
    have few := one.connections
    have more := two.connections
    dsimp only at few ⊢
    rw [List.countP_append]
    omega

-----------------------------------------------------------------------------------------
-- Parts of a turn
-----------------------------------------------------------------------------------------

theorem setState_changes (newState : SessionState) (inactive : newState ≠ .playing)
    (session : PlayerSession P)
    : ∃ events, session.setState newState = (events, { session with state := newState })
        ∧ Leads session.state events newState
        ∧ events.countP SessionEvent.isConnection
          ≤ if newState = .connected then 1 else 0 := by
  unfold setState
  split
  · rename_i changes
    refine ⟨_, rfl, ⟨rfl, Ne.symm changes, inactive, rfl⟩, ?_⟩
    split <;> simp_all [SessionEvent.isConnection]
  · rename_i same
    have unchanged : session.state = newState := not_not.mp same
    exact ⟨[], by rw [← unchanged], unchanged, by simp⟩

theorem advances_setState (newState : SessionState) (inactive : newState ≠ .playing)
    (idle : newState ≠ .connected) (session : PlayerSession P)
    : Advances session 0 (session.setState newState) := by
  obtain ⟨events, changed, leads, few⟩ := setState_changes newState inactive session
  rw [if_neg idle] at few
  rw [changed]
  exact ⟨leads, id, by dsimp only; omega⟩

/-- An event that tells of no change. -/
theorem advances_tell (session : PlayerSession P) (event : SessionEvent P)
    (told : Leads session.state [event] session.state) (other : event.isConnection = false)
    : Advances session 0 ([event], session) :=
  ⟨told, id, by simp [other]⟩

theorem stopHeartbeat_beats (beats : session.intervals = session.heartbeatInterval.toList)
    : session.stopHeartbeat.intervals = [] ∧ session.stopHeartbeat.heartbeatInterval = none := by
  unfold stopHeartbeat
  cases running : session.heartbeatInterval with
  | none =>
      rw [running] at beats
      exact ⟨beats, running⟩
  | some interval =>
      rw [running] at beats
      simp [beats]

theorem stopHeartbeat_same (session : PlayerSession P)
    : session.stopHeartbeat.state = session.state
      ∧ session.stopHeartbeat.calls = session.calls
      ∧ session.stopHeartbeat.sessionId = session.sessionId := by
  unfold stopHeartbeat
  split <;> exact ⟨rfl, rfl, rfl⟩

theorem advances_onNotice (notice : WsNotice) (session : PlayerSession P)
    : Advances session 0 (session.onNotice notice) := by
  cases notice with
  | opened | call _ | renewed | scheduled _ => exact .refl session 0
  | error => exact advances_tell session (.error "WebSocket error") rfl rfl
  | reconnect attempt => exact advances_setState .reconnecting nofun nofun session
  | closed =>
      simp only [onNotice]
      split
      · exact (advances_setState .reconnecting nofun nofun session).trans
          (advances_tell _ (.disconnected none) rfl rfl)
      · exact .refl session 0

theorem advances_onNotices (notices : List WsNotice) (session : PlayerSession P)
    : Advances session 0 (session.onNotices notices) := by
  unfold onNotices
  apply List.foldlRecOn
  · exact .refl session 0
  · intro before advances notice _
    exact advances.trans (advances_onNotice notice before.2)

theorem connects_eraseIdx (calls : List CallStage) (k : Nat)
    : connects (calls.eraseIdx k) ≤ connects calls :=
  (List.eraseIdx_sublist calls k).countP_le

/-- A call of `connect` that ends is one less. -/
theorem connects_eraseIdx_of_connect {calls : List CallStage} {k : Nat} {call : CallStage}
    (present : calls[k]? = some call) (connect : call ≠ .leaving)
    : connects (calls.eraseIdx k) + 1 = connects calls := by
  induction calls generalizing k with
  | nil => simp at present
  | cons first rest ih =>
      cases k with
      | zero =>
          simp only [List.getElem?_cons_zero, Option.some.injEq] at present
          subst present
          simp [connects, connect]
      | succ k =>
          have one := ih present
          simp only [connects, List.eraseIdx_cons_succ, List.countP_cons] at one ⊢
          omega

theorem connects_set {calls : List CallStage} {k : Nat} {call : CallStage}
    (present : calls[k]? = some call) (connect : call ≠ .leaving) (next : CallStage)
    (still : next ≠ .leaving)
    : connects (calls.set k next) = connects calls := by
  induction calls generalizing k with
  | nil => simp at present
  | cons first rest ih =>
      cases k with
      | zero =>
          simp only [List.getElem?_cons_zero, Option.some.injEq] at present
          subst present
          simp [connects, connect, still]
      | succ k =>
          have one := ih present
          simp only [connects, List.set_cons_succ, List.countP_cons] at one ⊢
          omega

-----------------------------------------------------------------------------------------
-- Turns
-----------------------------------------------------------------------------------------

theorem advances_wsTurn (turn : WsTurn) (session : PlayerSession P)
    : Advances session 0 (session.wsTurn config turn) := by
  have told (turn : WsTurn)
      : let ws := { session.ws with notices := [] }.step config (handled turn)
        Advances session 0 ({ session with ws }.onNotices ws.notices) := by
    intro ws
    have all := advances_onNotices ws.notices { session with ws }
    exact ⟨all.leads, all.beats, all.connections⟩
  cases turn with
  | call call =>
      cases call with
      | connect => exact .refl session 0
      | disconnect => exact .refl session 0
      | subscribe kind => exact told _
      | unsubscribe id => exact told _
  | socketOpens i onOpen => exact told _
  | socketCloses i ending => exact told _
  | timerFires i => exact told _

theorem advances_connect (session : PlayerSession P) : Advances session 1 session.connect := by
  unfold connect
  split
  · exact .refl session 1
  · obtain ⟨leads, beats, few⟩ :=
      advances_setState .connecting nofun nofun session
    exact ⟨leads, beats, by
      have one : connects (calls (session.setState .connecting).2 ++ [.authenticating])
          = connects (calls (session.setState .connecting).2) + 1 := by
        simp [connects]
      dsimp only
      omega⟩

theorem advances_connectPlayerReturns (k : Nat) (answer : Except String String)
    (session : PlayerSession P)
    : Advances session 0 (session.connectPlayerReturns config k answer) := by
  unfold connectPlayerReturns
  split
  · rename_i present
    cases answer with
    | ok sessionId =>
        refine ⟨rfl, id, ?_⟩
        dsimp only
        rw [connects_set present nofun (.openingSocket _) nofun]
        simp
    | error message =>
        obtain ⟨events, changed, leads, few⟩ := setState_changes .disconnected nofun session
        have told : Leads .disconnected [SessionEvent.error (P := P) message] .disconnected := rfl
        have less := connects_eraseIdx session.calls k
        rw [if_neg nofun] at few
        dsimp only
        rw [changed]
        refine ⟨leads.append told, id, ?_⟩
        dsimp only
        rw [List.countP_append]
        simp only [List.countP_singleton, SessionEvent.isConnection, Bool.false_eq_true, ↓reduceIte]
        omega
  · exact .refl session 0

theorem advances_socketReturns (k : Nat) (session : PlayerSession P)
    : Advances session 0 (session.socketReturns k) := by
  unfold socketReturns
  split
  · rename_i socket present
    split
    · obtain ⟨state, calls, -⟩ := stopHeartbeat_same session
      refine ⟨state.symm, fun beats => ?_, ?_⟩
      · simp [startHeartbeat, (stopHeartbeat_beats beats).1]
      · simp only [startHeartbeat, calls, List.countP_nil, Nat.zero_add, Nat.add_zero]
        exact (connects_set present nofun .fetchingPlayer nofun).le
    · exact .refl session 0
  · exact .refl session 0

theorem advances_getPlayerReturns (k : Nat) (info : Option P) (session : PlayerSession P)
    : Advances session 0 (session.getPlayerReturns k info) := by
  unfold getPlayerReturns
  split
  · rename_i present
    have refreshed : Advances session 0 (session.refreshPlayerInfo info)
        ∧ (session.refreshPlayerInfo info).2.calls = session.calls := by
      unfold refreshPlayerInfo
      cases info with
      | none => exact ⟨.refl session 0, rfl⟩
      | some player =>
          dsimp only
          split <;> exact ⟨⟨rfl, id, by simp [SessionEvent.isConnection]⟩, rfl⟩
    obtain ⟨advances, calls⟩ := refreshed
    obtain ⟨events, changed, leads, few⟩ :=
      setState_changes .connected nofun (session.refreshPlayerInfo info).2
    dsimp only
    rw [changed]
    have ended := connects_eraseIdx_of_connect present nofun
    refine ⟨?_, advances.beats, ?_⟩
    · exact (advances.leads.append leads).append rfl
    · have earlier := advances.connections
      rw [calls] at earlier ⊢
      simp only [List.countP_append, List.countP_singleton, SessionEvent.isConnection,
        ↓reduceIte] at few ⊢
      simp only [Bool.false_eq_true, ↓reduceIte] at few ⊢
      omega
  · exact .refl session 0

theorem leave_changes (session : PlayerSession P)
    : ∃ events, session.leave config
          = (events ++ [.disconnected (some "Client requested disconnect")],
              { session with
                ws := session.ws.disconnect config
                sessionId := none
                playerInfo := none
                state := .disconnected })
        ∧ Leads session.state events .disconnected
        ∧ events.countP SessionEvent.isConnection = 0 := by
  obtain ⟨events, changed, leads, few⟩ := setState_changes .disconnected nofun
    { session with ws := session.ws.disconnect config, sessionId := none, playerInfo := none }
  rw [if_neg nofun] at few
  refine ⟨events, ?_, leads, Nat.le_zero.mp few⟩
  unfold leave
  dsimp only
  rw [changed]

theorem advances_leave (session : PlayerSession P)
    : Advances session 0 (session.leave config) := by
  obtain ⟨events, left, leads, none⟩ := @leave_changes P config session
  have told : Leads .disconnected
      [SessionEvent.disconnected (P := P) (some "Client requested disconnect")] .disconnected :=
    rfl
  rw [left]
  refine ⟨leads.append told, id, ?_⟩
  dsimp only
  rw [List.countP_append, none]
  simp [SessionEvent.isConnection]

theorem advances_disconnect (session : PlayerSession P)
    : Advances session 0 (session.disconnect config) := by
  obtain ⟨state, calls, -⟩ := stopHeartbeat_same session
  have stopped : Advances session 0 ([], session.stopHeartbeat) := by
    refine ⟨state.symm, fun beats => ?_, by simp [calls]⟩
    obtain ⟨none, off⟩ := stopHeartbeat_beats beats
    rw [none, off]
    rfl
  unfold disconnect
  split
  · exact .refl session 0
  · dsimp only
    split
    · refine ⟨stopped.leads, stopped.beats, ?_⟩
      simp [connects, calls]
    · exact stopped.trans (advances_leave session.stopHeartbeat)

theorem advances_disconnectPlayerReturns (k : Nat) (session : PlayerSession P)
    : Advances session 0 (session.disconnectPlayerReturns config k) := by
  unfold disconnectPlayerReturns
  split
  · have ended : Advances session 0 ([], { session with calls := session.calls.eraseIdx k }) :=
      ⟨rfl, id, by simpa using connects_eraseIdx session.calls k⟩
    exact ended.trans (advances_leave _)
  · exact .refl session 0

/-- What every turn does. -/
theorem advances_step (turn : SessionTurn P) (session : PlayerSession P)
    : Advances session (if turn.isConnect then 1 else 0) (session.step config turn) := by
  cases turn with
  | connect => exact advances_connect session
  | disconnect => exact advances_disconnect session
  | connectPlayerReturns k answer => exact advances_connectPlayerReturns k answer session
  | socketReturns k => exact advances_socketReturns k session
  | getPlayerReturns k info => exact advances_getPlayerReturns k info session
  | disconnectPlayerReturns k => exact advances_disconnectPlayerReturns k session
  | wsTurn turn => exact advances_wsTurn turn session

-----------------------------------------------------------------------------------------
-- Runs
-----------------------------------------------------------------------------------------

theorem advances_steps (turns : List (SessionTurn P)) {before : PlayerSession P} {started : Nat}
    {course : List (SessionEvent P) × PlayerSession P} (advances : Advances before started course)
    : Advances before (started + turns.countP SessionTurn.isConnect)
        (steps config turns course) := by
  induction turns generalizing started course with
  | nil => exact advances
  | cons turn rest ih =>
      have next := ih (advances.trans (@advances_step P config turn course.2))
      rw [List.countP_cons, Nat.add_comm (List.countP _ rest), ← Nat.add_assoc]
      exact next

/-- In every run, whatever the interleaving of calls, answers and losses of the socket, the
changes of state lead from `disconnected` to the present state, and none to `playing`; at most
one heartbeat runs, and it is the one that the session can stop; and the session has become
connected at most as often as `connect` was called.
-/
theorem session_course (config : WsConfig) (turns : List (SessionTurn P))
    : let (events, session) := run config turns
      Leads .disconnected events session.state
      ∧ session.state ≠ .playing
      ∧ session.intervals = session.heartbeatInterval.toList
      ∧ events.countP SessionEvent.isConnection ≤ turns.countP SessionTurn.isConnect := by
  have course := @advances_steps P config turns _ _ _ (.refl (new (P := P)) 0)
  refine ⟨course.leads, ?_, course.beats rfl, ?_⟩
  · have start : (new (P := P)).state ≠ .playing := by simp [new]
    exact course.leads.inactive start
  · have few := course.connections
    have none : connects (new (P := P)).calls = 0 := rfl
    rw [none] at few
    simp only [Nat.zero_add] at few
    exact Nat.le_of_add_right_le few

-- A call of `disconnect` while `connect` is in progress is overtaken by it.
example
    : (run .defaultConfig
          [.connect, .disconnect, .connectPlayerReturns 0 (.ok "s"), .wsTurn (.socketOpens 0 []),
            .socketReturns 0, .getPlayerReturns 0 (some ())]).2.state
      = .connected := by
  decide

end PlayerSession

end VeloChain
