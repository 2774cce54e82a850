import VeloChain.Sdk.SessionCourse

/-! A session whose calls come one after the other.
Between its calls it sends heartbeats exactly while it holds a session of the server. A call of
`connect` that fails keeps the session held before, though the session is disconnected then, and
`disconnect` has no effect any more.
-/

namespace VeloChain

variable {P : Type}

/-- Whether a turn is a call of `connect` or `disconnect`. -/
def SessionTurn.isCall : SessionTurn P → Bool
  | .connect | .disconnect => true
  | _ => false

namespace PlayerSession

/-- Each call comes after the one before has ended. -/
def Sequential (config : WsConfig) (session : PlayerSession P) : List (SessionTurn P) → Prop
  | [] => True
  | turn :: rest =>
      (turn.isCall → session.calls = [])
      ∧ Sequential config (session.step config turn).2 rest

/-- What the events leave of the session held before: a call of `connect` takes one, a call of
`disconnect` gives it up.
-/
def heldAfter (before : Option String) (events : List (SessionEvent P)) : Option String :=
  events.foldl
    (fun held event =>
      match event with
      | .connected sessionId => sessionId
      | .disconnected (some _) => none
      | _ => held)
    before

/-- The session that is held after some events. -/
def held (events : List (SessionEvent P)) : Option String := heldAfter none events

theorem held_append (events more : List (SessionEvent P))
    : held (events ++ more) = heldAfter (held events) more := by
  simp only [held, heldAfter, List.foldl_append]

/-- A session between its calls, or in the middle of one. -/
inductive OneCall (events : List (SessionEvent P)) (session : PlayerSession P) : Prop
  | rest (calls : session.calls = []) (holds : session.sessionId = held events)
      (beats : session.heartbeatInterval.isSome = session.sessionId.isSome)
      (connected : session.state = .connected → session.sessionId.isSome)
  | authenticating (calls : session.calls = [.authenticating])
      (holds : session.sessionId = held events)
      (beats : session.heartbeatInterval.isSome = session.sessionId.isSome)
      (unconnected : session.state ≠ .connected)
  | opening (socket : Option Nat) (calls : session.calls = [.openingSocket socket])
      (holds : session.sessionId.isSome) (unconnected : session.state ≠ .connected)
  | fetching (calls : session.calls = [.fetchingPlayer]) (holds : session.sessionId.isSome)
      (beats : session.heartbeatInterval.isSome) (unconnected : session.state ≠ .connected)
  | leaving (calls : session.calls = [.leaving]) (silent : session.heartbeatInterval = none)

variable {config : WsConfig} {session : PlayerSession P}

/-- What the WebSocket client does to the session: it may be reconnecting. -/
structure Informed (before : PlayerSession P)
    (course : List (SessionEvent P) × PlayerSession P)
    : Prop where
  calls : course.2.calls = before.calls
  sessionId : course.2.sessionId = before.sessionId
  heartbeat : course.2.heartbeatInterval = before.heartbeatInterval
  holds : ∀ held, heldAfter held course.1 = held
  connected : course.2.state = .connected → before.state = .connected

theorem Informed.refl (session : PlayerSession P) : Informed session ([], session) :=
  ⟨rfl, rfl, rfl, fun _ => rfl, id⟩

theorem Informed.trans {first second : PlayerSession P} {events : List (SessionEvent P)}
    {course : List (SessionEvent P) × PlayerSession P} (one : Informed first (events, second))
    (two : Informed second course)
    : Informed first (events ++ course.1, course.2) where
  calls := two.calls.trans one.calls
  sessionId := two.sessionId.trans one.sessionId
  heartbeat := two.heartbeat.trans one.heartbeat
  holds held := by
    rw [heldAfter, List.foldl_append]
    exact (congrArg (heldAfter · course.1) (one.holds held)).trans (two.holds held)
  connected state := one.connected (two.connected state)

theorem informed_reconnecting (session : PlayerSession P)
    : Informed session (session.setState .reconnecting) := by
  unfold setState
  split
  · exact ⟨rfl, rfl, rfl, fun _ => rfl, nofun⟩
  · exact .refl session

theorem informed_onNotice (notice : WsNotice) (session : PlayerSession P)
    : Informed session (session.onNotice notice) := by
  cases notice with
  | opened | call _ | renewed | scheduled _ => exact .refl session
  | error => exact ⟨rfl, rfl, rfl, fun _ => rfl, id⟩
  | reconnect attempt => exact informed_reconnecting session
  | closed =>
      simp only [onNotice]
      split
      · have told : Informed (session.setState .reconnecting).2
            ([.disconnected none], (session.setState .reconnecting).2) :=
          ⟨rfl, rfl, rfl, fun _ => rfl, id⟩
        exact (informed_reconnecting session).trans told
      · exact .refl session

theorem informed_wsTurn (turn : WsTurn) (session : PlayerSession P)
    : Informed session (session.wsTurn config turn) := by
  have all (notices : List WsNotice) (start : PlayerSession P)
      : Informed start (start.onNotices notices) := by
    unfold onNotices
    apply List.foldlRecOn
    · exact .refl start
    · intro before informed notice _
      exact informed.trans (informed_onNotice notice before.2)
  have told (turn : WsTurn)
      : let ws := { session.ws with notices := [] }.step config (handled turn)
        Informed session ({ session with ws }.onNotices ws.notices) := by
    intro ws
    obtain ⟨calls, sessionId, heartbeat, holds, connected⟩ := all ws.notices { session with ws }
    exact ⟨calls, sessionId, heartbeat, holds, connected⟩
  cases turn with
  | call call =>
      cases call with
      | connect => exact .refl session
      | disconnect => exact .refl session
      | subscribe kind => exact told _
      | unsubscribe id => exact told _
  | socketOpens i onOpen => exact told _
  | socketCloses i ending => exact told _
  | timerFires i => exact told _

theorem OneCall.informed {events : List (SessionEvent P)} (one : OneCall events session)
    {course : List (SessionEvent P) × PlayerSession P} (informed : Informed session course)
    : OneCall (events ++ course.1) course.2 := by
  obtain ⟨calls', sessionId, heartbeat, same, state⟩ := informed
  cases one with
  | rest calls holds beats connected =>
      refine .rest (calls'.trans calls) ?_ ?_ (fun now => ?_)
      · rw [sessionId, holds, held_append, same]
      · rw [heartbeat, sessionId, beats]
      · rw [sessionId]
        exact connected (state now)
  | authenticating calls holds beats unconnected =>
      refine .authenticating (calls'.trans calls) ?_ ?_ (mt state unconnected)
      · rw [sessionId, holds, held_append, same]
      · rw [heartbeat, sessionId, beats]
  | opening socket calls holds unconnected =>
      exact .opening socket (calls'.trans calls) (sessionId ▸ holds) (mt state unconnected)
  | fetching calls holds beats unconnected =>
      exact .fetching (calls'.trans calls) (sessionId ▸ holds) (heartbeat ▸ beats)
        (mt state unconnected)
  | leaving calls silent => exact .leaving (calls'.trans calls) (heartbeat.trans silent)

/-- A turn that finds no call to continue. -/
theorem OneCall.idle {events : List (SessionEvent P)} (one : OneCall events session)
    : OneCall (events ++ []) session :=
  one.informed (.refl session)

theorem stopHeartbeat_none (session : PlayerSession P)
    : session.stopHeartbeat.heartbeatInterval = none := by
  unfold stopHeartbeat
  split
  · rfl
  · rename_i off
    exact off

/-- The events of a change of state leave what is held. -/
theorem setState_holds (newState : SessionState) (session : PlayerSession P)
    : ∃ events, session.setState newState = (events, { session with state := newState })
        ∧ ∀ held, heldAfter held events = held := by
  unfold setState
  split
  · exact ⟨_, rfl, fun _ => rfl⟩
  · rename_i same
    exact ⟨[], by rw [← not_not.mp same], fun _ => rfl⟩

theorem OneCall.left {events : List (SessionEvent P)} (calls : session.calls = [])
    (silent : session.heartbeatInterval = none)
    : OneCall (events ++ (session.leave config).1) (session.leave config).2 := by
  obtain ⟨changes, changed, -⟩ := setState_holds .disconnected
    { session with ws := session.ws.disconnect config, sessionId := none, playerInfo := none }
  unfold leave
  dsimp only
  rw [changed]
  refine .rest calls ?_ (by simp [silent]) nofun
  simp [held_append, heldAfter]

theorem OneCall.connect {events : List (SessionEvent P)} (one : OneCall events session)
    (free : session.calls = [])
    : OneCall (events ++ session.connect.1) session.connect.2 := by
  unfold PlayerSession.connect
  split
  · exact one.idle
  · obtain ⟨changes, changed, same⟩ := setState_holds .connecting session
    dsimp only
    rw [changed]
    cases one with
    | rest calls holds beats connected =>
        refine .authenticating (by simp [free]) ?_ beats nofun
        rw [held_append, same, ← holds]
    | authenticating calls => exact nomatch free.symm.trans calls
    | opening socket calls => exact nomatch free.symm.trans calls
    | fetching calls => exact nomatch free.symm.trans calls
    | leaving calls => exact nomatch free.symm.trans calls

theorem OneCall.disconnect {events : List (SessionEvent P)} (one : OneCall events session)
    (free : session.calls = [])
    : OneCall (events ++ (session.disconnect config).1) (session.disconnect config).2 := by
  obtain ⟨-, calls, -⟩ := stopHeartbeat_same session
  unfold PlayerSession.disconnect
  split
  · exact one.idle
  · dsimp only
    split
    · exact .leaving (by simp [calls, free]) (stopHeartbeat_none session)
    · exact .left (calls.trans free) (stopHeartbeat_none session)

/-- A single call in progress is the one that is waited for. -/
theorem eq_of_single {calls : List CallStage} {call other : CallStage} {k : Nat}
    (single : calls = [call]) (found : calls[k]? = some other)
    : k = 0 ∧ call = other := by
  subst single
  cases k with
  | zero => exact ⟨rfl, by simpa using found⟩
  | succ k => simp at found

/-- Whatever call is waited for is the one in progress. -/
theorem OneCall.waited {events : List (SessionEvent P)} (one : OneCall events session)
    {k : Nat} {call : CallStage} (found : session.calls[k]? = some call)
    : k = 0 ∧ session.calls = [call] := by
  cases one with
  | rest calls =>
      rw [calls] at found
      simp at found
  | authenticating calls =>
      obtain ⟨first, rfl⟩ := eq_of_single calls found
      exact ⟨first, calls⟩
  | opening socket calls =>
      obtain ⟨first, rfl⟩ := eq_of_single calls found
      exact ⟨first, calls⟩
  | fetching calls =>
      obtain ⟨first, rfl⟩ := eq_of_single calls found
      exact ⟨first, calls⟩
  | leaving calls =>
      obtain ⟨first, rfl⟩ := eq_of_single calls found
      exact ⟨first, calls⟩

theorem OneCall.connectPlayerReturns {events : List (SessionEvent P)}
    (one : OneCall events session) (k : Nat) (answer : Except String String)
    : OneCall (events ++ (session.connectPlayerReturns config k answer).1)
        (session.connectPlayerReturns config k answer).2 := by
  unfold PlayerSession.connectPlayerReturns
  split
  · rename_i found
    obtain ⟨rfl, present⟩ := one.waited found
    cases one with
    | rest calls => exact nomatch present.symm.trans calls
    | opening socket calls => exact nomatch present.symm.trans calls
    | fetching calls => exact nomatch present.symm.trans calls
    | leaving calls => exact nomatch present.symm.trans calls
    | authenticating calls holds beats unconnected =>
        cases answer with
        | ok sessionId =>
            have set : ∀ socket, session.calls.set 0 (.openingSocket socket)
                = [.openingSocket socket] := by
              intro socket
              rw [calls]
              rfl
            exact .opening _ (set _) rfl unconnected
        | error message =>
            obtain ⟨changes, changed, same⟩ := setState_holds .disconnected session
            dsimp only
            rw [changed]
            refine .rest (by simp [calls]) ?_ beats nofun
            have told : heldAfter (held events) (changes ++ [.error message]) = held events := by
              rw [heldAfter, List.foldl_append]
              exact same (held events)
            rw [held_append, told, ← holds]
  · exact one.idle

theorem OneCall.socketReturns {events : List (SessionEvent P)} (one : OneCall events session)
    (k : Nat)
    : OneCall (events ++ (session.socketReturns k).1) (session.socketReturns k).2 := by
  unfold PlayerSession.socketReturns
  split
  · rename_i socket found
    split
    · obtain ⟨rfl, present⟩ := one.waited found
      obtain ⟨state, calls', sessionId⟩ := stopHeartbeat_same session
      cases one with
      | rest calls => exact nomatch present.symm.trans calls
      | authenticating calls => exact nomatch present.symm.trans calls
      | fetching calls => exact nomatch present.symm.trans calls
      | leaving calls => exact nomatch present.symm.trans calls
      | opening socket calls holds unconnected =>
          refine .fetching ?_ ?_ rfl ?_
          · simp only [startHeartbeat, calls', calls, List.set_cons_zero]
          · exact (congrArg Option.isSome sessionId).trans holds
          · exact fun now => unconnected (state.symm.trans now)
    · exact one.idle
  · exact one.idle

theorem OneCall.getPlayerReturns {events : List (SessionEvent P)} (one : OneCall events session)
    (k : Nat) (info : Option P)
    : OneCall (events ++ (session.getPlayerReturns k info).1)
        (session.getPlayerReturns k info).2 := by
  unfold PlayerSession.getPlayerReturns
  split
  · rename_i found
    obtain ⟨rfl, present⟩ := one.waited found
    have refreshed : (session.refreshPlayerInfo info).2.calls = session.calls
        ∧ (session.refreshPlayerInfo info).2.sessionId = session.sessionId
        ∧ (session.refreshPlayerInfo info).2.heartbeatInterval = session.heartbeatInterval := by
      unfold refreshPlayerInfo
      cases info <;> exact ⟨rfl, rfl, rfl⟩
    obtain ⟨calls', sessionId, heartbeat⟩ := refreshed
    obtain ⟨changes, changed, -⟩ :=
      setState_holds .connected (session.refreshPlayerInfo info).2
    dsimp only
    rw [changed]
    cases one with
    | rest calls => exact nomatch present.symm.trans calls
    | authenticating calls => exact nomatch present.symm.trans calls
    | opening socket calls => exact nomatch present.symm.trans calls
    | leaving calls => exact nomatch present.symm.trans calls
    | fetching calls holds beats unconnected =>
        refine .rest ?_ ?_ ?_ (fun _ => ?_)
        · simp [calls', calls]
        · rw [← List.append_assoc, ← List.append_assoc, held_append]
          rfl
        · simp only [sessionId, heartbeat, holds, beats]
        · exact (congrArg Option.isSome sessionId).trans holds
  · exact one.idle

theorem OneCall.disconnectPlayerReturns {events : List (SessionEvent P)}
    (one : OneCall events session) (k : Nat)
    : OneCall (events ++ (session.disconnectPlayerReturns config k).1)
        (session.disconnectPlayerReturns config k).2 := by
  unfold PlayerSession.disconnectPlayerReturns
  split
  · rename_i found
    obtain ⟨rfl, present⟩ := one.waited found
    cases one with
    | rest calls => exact nomatch present.symm.trans calls
    | authenticating calls => exact nomatch present.symm.trans calls
    | opening socket calls => exact nomatch present.symm.trans calls
    | fetching calls => exact nomatch present.symm.trans calls
    | leaving calls silent => exact .left (by simp [calls]) silent
  · exact one.idle

/-- What one turn of a session whose calls are sequential preserves. -/
theorem OneCall.step {events : List (SessionEvent P)} (one : OneCall events session)
    (turn : SessionTurn P) (sequential : turn.isCall → session.calls = [])
    : OneCall (events ++ (session.step config turn).1) (session.step config turn).2 := by
  cases turn with
  | connect => exact one.connect (sequential rfl)
  | disconnect => exact one.disconnect (sequential rfl)
  | connectPlayerReturns k answer => exact one.connectPlayerReturns k answer
  | socketReturns k => exact one.socketReturns k
  | getPlayerReturns k info => exact one.getPlayerReturns k info
  | disconnectPlayerReturns k => exact one.disconnectPlayerReturns k
  | wsTurn turn => exact one.informed (informed_wsTurn turn session)

theorem OneCall.steps {turns : List (SessionTurn P)} {events : List (SessionEvent P)}
    (one : OneCall events session) (sequential : session.Sequential config turns)
    : OneCall (steps config turns (events, session)).1
        (steps config turns (events, session)).2 := by
  induction turns generalizing events session with
  | nil => exact one
  | cons turn rest ih => exact ih (one.step turn sequential.1) sequential.2

-----------------------------------------------------------------------------------------
-- Between the calls
-----------------------------------------------------------------------------------------

theorem oneCall_new : OneCall ([] : List (SessionEvent P)) new :=
  .rest rfl rfl rfl nofun

theorem OneCall.at_rest {events : List (SessionEvent P)} (one : OneCall events session)
    (free : session.calls = [])
    : session.sessionId = held events
      ∧ session.heartbeatInterval.isSome = session.sessionId.isSome
      ∧ (session.state = .connected → session.sessionId.isSome) := by
  cases one with
  | rest calls holds beats connected => exact ⟨holds, beats, connected⟩
  | authenticating calls => exact nomatch free.symm.trans calls
  | opening socket calls => exact nomatch free.symm.trans calls
  | fetching calls => exact nomatch free.symm.trans calls
  | leaving calls => exact nomatch free.symm.trans calls

theorem steps_snoc (turns : List (SessionTurn P)) (turn : SessionTurn P)
    (before : List (SessionEvent P) × PlayerSession P)
    : (steps config (turns ++ [turn]) before).2
      = ((steps config turns before).2.step config turn).2 := by
  rw [steps, List.foldl_append]
  rfl

theorem intervals_run (turns : List (SessionTurn P))
    : (run config turns).2.intervals = (run config turns).2.heartbeatInterval.toList :=
  (@advances_steps P config turns _ _ _ (.refl new 0)).beats rfl

/-- A call of `disconnect`, up to its end, switches the heartbeat off unless the session is
disconnected already.
-/
theorem disconnect_silences (online : session.state ≠ .disconnected)
    : (((session.step config .disconnect).2.step config
        (.disconnectPlayerReturns 0)).2.heartbeatInterval = none) := by
  have left : ∀ start : PlayerSession P, start.heartbeatInterval = none →
      (start.leave config).2.heartbeatInterval = none := by
    intro start off
    obtain ⟨changes, changed, -⟩ := setState_holds .disconnected
      { start with ws := start.ws.disconnect config, sessionId := none, playerInfo := none }
    unfold leave
    dsimp only
    rw [changed]
    exact off
  have answered : ∀ start : PlayerSession P, start.heartbeatInterval = none →
      (start.disconnectPlayerReturns config 0).2.heartbeatInterval = none := by
    intro start off
    unfold PlayerSession.disconnectPlayerReturns
    split
    · exact left _ off
    · exact off
  refine answered _ ?_
  simp only [step, PlayerSession.disconnect, if_neg online]
  split
  · exact stopHeartbeat_none session
  · exact left _ (stopHeartbeat_none session)

/-- When the calls of a session come one after the other, then between them the session has the
id that was taken by the last successful `connect`, unless it was given up, and heartbeats run
exactly while there is one; a connected session has one. Calling `disconnect` switches them off
except in a session that is held while disconnected, as a failed `connect` leaves it.
-/
theorem session_at_rest (config : WsConfig) (turns : List (SessionTurn P))
    (sequential : new.Sequential config turns) (free : (run config turns).2.calls = [])
    : let (events, session) := run config turns
      session.sessionId = held events
      ∧ (session.intervals ≠ [] ↔ session.sessionId.isSome)
      ∧ (session.state = .connected → session.sessionId.isSome)
      ∧ ((run config (turns ++ [.disconnect, .disconnectPlayerReturns 0])).2.intervals = []
          ↔ session.state ≠ .disconnected ∨ held events = none) := by
  have one : OneCall (run config turns).1 (run config turns).2 := oneCall_new.steps sequential
  obtain ⟨holds, beats, connected⟩ := one.at_rest free
  have running : (run config turns).2.intervals ≠ [] ↔ (run config turns).2.sessionId.isSome := by
    rw [intervals_run, ← beats]
    cases (run config turns).2.heartbeatInterval <;> simp
  refine ⟨holds, running, connected, ?_⟩
  have ends : (run config (turns ++ [.disconnect, .disconnectPlayerReturns 0])).2
      = (((run config turns).2.step config .disconnect).2.step config
          (.disconnectPlayerReturns 0)).2 := by
    rw [show turns ++ [SessionTurn.disconnect, .disconnectPlayerReturns 0]
      = (turns ++ [.disconnect]) ++ [.disconnectPlayerReturns 0] by simp]
    rw [run, steps_snoc, steps_snoc]
    rfl
  by_cases offline : (run config turns).2.state = .disconnected
  · have same : (((run config turns).2.step config .disconnect).2.step config
        (.disconnectPlayerReturns 0)).2 = (run config turns).2 := by
      simp [step, PlayerSession.disconnect, offline, PlayerSession.disconnectPlayerReturns, free]
    rw [ends, same, ← not_iff_not, ← ne_eq, running, holds]
    change _ ↔ ¬ ((run config turns).2.state ≠ .disconnected ∨ held (run config turns).1 = none)
    simp [offline, Option.isSome_iff_ne_none]
  · have off := @disconnect_silences P config _ offline
    rw [intervals_run, ends, off]
    exact ⟨fun _ => .inl offline, fun _ => rfl⟩

def lost : SocketEnd :=
  { failed := true, onError := [], afterError := [], onClose := [], onReconnect := [] }

/-- A session that is lost and whose next `connect` fails: it is held while disconnected. -/
def failingTurns : List (SessionTurn Unit) :=
  [.connect, .connectPlayerReturns 0 (.ok "s"), .wsTurn (.socketOpens 0 []), .socketReturns 0,
    .getPlayerReturns 0 (some ()), .wsTurn (.socketCloses 0 lost), .connect,
    .connectPlayerReturns 0 (.error "refused")]

theorem failing_sequential : new.Sequential .defaultConfig failingTurns := by
  refine ⟨fun _ => rfl, nofun, nofun, nofun, nofun, nofun, fun _ => ?_, nofun, trivial⟩
  decide

theorem session_at_rest_failing
    : let (events, session) := run .defaultConfig failingTurns
      session.sessionId = held events
      ∧ (session.intervals ≠ [] ↔ session.sessionId.isSome)
      ∧ (session.state = .connected → session.sessionId.isSome)
      ∧ ((run .defaultConfig
            (failingTurns ++ [.disconnect, .disconnectPlayerReturns 0])).2.intervals = []
          ↔ session.state ≠ .disconnected ∨ held events = none) :=
  session_at_rest .defaultConfig failingTurns failing_sequential (by decide)

-- Its heartbeat goes on.
example
    : let session := (run .defaultConfig (failingTurns ++ [.disconnect])).2
      (session.state, session.sessionId, session.intervals) = (.disconnected, some "s", [0]) := by
  decide

end PlayerSession

end VeloChain
