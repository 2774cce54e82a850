import VeloChain.Sdk.ConnectCalls

/-! The client with its sockets refines the connection without them.
While the client is open, its handlers and the streams of its socket are those of a connection
that is never closed but now and then renewed: each socket that opens is a renewal, once the
handlers of the application have been called.
-/

namespace VeloChain

namespace WsRuntime

variable {config : WsConfig} {runtime : WsRuntime}

/-- The streams of a socket. -/
def streams (i : Nat) (runtime : WsRuntime) : Option (List EventStream) :=
  runtime.sockets[i]?.map WsSocket.streams

/-- The handlers of the client and the streams of its current socket. -/
def view (runtime : WsRuntime) : WsConnection :=
  { client := runtime.client, streams := (runtime.ws.bind runtime.streams).getD [] }

/-- What a notice of the client is to the connection. -/
def viewed (connection : WsConnection) : WsNotice → List WsOp
  | .call (.subscribe kind) => [.subscribe kind]
  | .call (.unsubscribe id) => [.unsubscribe id]
  | .call .disconnect =>
      connection.client.subscriptions.map (fun entry => .unsubscribe entry.1)
  | .renewed => [.reconnect]
  | .call .connect | .opened | .closed | .error | .scheduled _ | .reconnect _ => []

/-- What the course of the client is to the connection. -/
def views (notices : List WsNotice) : List WsOp :=
  notices.foldl (fun ops notice => ops ++ viewed (WsConnection.run ops) notice) []

/-- The client stands for the connection. -/
structure Refines (runtime : WsRuntime) (connection : WsConnection) : Prop where
  client : runtime.client = connection.client
  opened
    : runtime.state = .opened → ∀ i, runtime.ws = some i →
        runtime.streams i = some connection.streams
  fresh : ∀ i, runtime.readyState i = some .connecting → runtime.streams i = some []

-----------------------------------------------------------------------------------------
-- Sending
-----------------------------------------------------------------------------------------

theorem streams_onSocket {change : WsSocket → WsSocket}
    {next : List EventStream → List EventStream}
    (moves : ∀ socket, (change socket).streams = next socket.streams) (i j : Nat)
    (runtime : WsRuntime)
    : (runtime.onSocket i change).streams j
      = if i = j then (runtime.streams j).map next else runtime.streams j := by
  simp only [streams, onSocket, List.getElem?_modify]
  split
  · cases runtime.sockets[j]? <;> simp [moves]
  · simp

/-- An open client, its socket and the streams of it. -/
structure Serves (runtime : WsRuntime) (i : Nat) (connection : WsConnection) : Prop where
  client : runtime.client = connection.client
  state : runtime.state = .opened
  ws : runtime.ws = some i
  stage : runtime.readyState i = some .opened
  streams : runtime.streams i = some connection.streams

/-- Sending a request over an open socket is sending it over the connection. -/
theorem Serves.sendSubscriptionRequest {i : Nat} {connection : WsConnection}
    (serves : Serves runtime i connection) (method params : String)
    : (runtime.sendSubscriptionRequest method params).1 = true
      ∧ Serves (runtime.sendSubscriptionRequest method params).2 i
          (connection.sendSubscriptionRequest method params)
      ∧ ∀ j, j ≠ i →
          (runtime.sendSubscriptionRequest method params).2.streams j = runtime.streams j := by
  have sent := sendSubscriptionRequest_sent method params runtime
  have stage : runtime.sockets[i]?.map WsSocket.readyState = some .opened := serves.stage
  set after := runtime.sendSubscriptionRequest method params with sends
  unfold WsRuntime.sendSubscriptionRequest at sends
  simp only [serves.ws, serves.state, ne_eq, not_true_eq_false, ↓reduceIte, stage] at sends
  have grows : ∀ j, after.2.streams j
      = if i = j then
          (runtime.streams j).map (fun streams =>
            streams
              ++ (EventStream.ofRequest method
                  (if method == "eth_subscribe" then [params] else [])).toList)
        else runtime.streams j := by
    intro j
    rw [sends]
    exact streams_onSocket (by intro socket; rfl) i j _
  refine ⟨by rw [sends], ⟨?_, ?_, ?_, ?_, ?_⟩, ?_⟩
  · rw [sends]
    simp only [onSocket, WsConnection.sendSubscriptionRequest, serves.client]
  · exact sent.state.trans serves.state
  · exact sent.ws.trans serves.ws
  · exact (sent.readyState i).trans serves.stage
  · rw [grows, if_pos rfl, serves.streams]
    rfl
  · intro j other
    rw [grows, if_neg (Ne.symm other)]

theorem Serves.resubscribe {i : Nat} {connection : WsConnection}
    (entries : List (String × SdkSubscription)) (serves : Serves runtime i connection)
    : (resubscribe entries runtime).1 = true
      ∧ Serves (resubscribe entries runtime).2 i
          (entries.foldl (fun connection entry =>
              let eventType := String.ofList (entry.1.toList.takeWhile (· != '_'))
              match WsConnection.methodMap eventType with
              | some method => connection.sendSubscriptionRequest method eventType
              | none => connection)
            connection)
      ∧ ∀ j, j ≠ i → (resubscribe entries runtime).2.streams j = runtime.streams j := by
  induction entries generalizing runtime connection with
  | nil => exact ⟨rfl, serves, fun _ _ => rfl⟩
  | cons entry rest ih =>
      simp only [WsRuntime.resubscribe, List.foldl_cons]
      cases known : WsConnection.methodMap
          (String.ofList (entry.1.toList.takeWhile (· != '_'))) with
      | none => exact ih serves
      | some method =>
          obtain ⟨returns, next, others⟩ := serves.sendSubscriptionRequest method
            (String.ofList (entry.1.toList.takeWhile (· != '_')))
          dsimp only
          split
          · rename_i middle answer
            rw [answer] at next others
            obtain ⟨all, last, rest_⟩ := ih next
            exact ⟨all, last, fun j other => (rest_ j other).trans (others j other)⟩
          · rename_i middle answer
            rw [answer] at returns
            simp at returns

-----------------------------------------------------------------------------------------
-- Turns
-----------------------------------------------------------------------------------------

theorem Refines.serves {connection : WsConnection} (refines : Refines runtime connection)
    (single : Single config runtime) (opened : runtime.state = .opened)
    : ∃ i, Serves runtime i connection := by
  obtain ⟨i, current, stage⟩ := single.state_opened opened
  exact ⟨i, refines.client, opened, current, stage, refines.opened opened i current⟩

/-- A client that is not open stands for every connection with its handlers. -/
theorem Refines.of_idle {connection : WsConnection} (client : runtime.client = connection.client)
    (idle : runtime.state ≠ .opened)
    (fresh : ∀ i, runtime.readyState i = some .connecting → runtime.streams i = some [])
    : Refines runtime connection :=
  { client, opened := fun opened => absurd opened idle, fresh }

theorem Refines.connect {connection : WsConnection} (refines : Refines runtime connection)
    : Refines (runtime.connect config) connection := by
  by_cases opened : runtime.state = .opened
  · rw [WsRuntime.connect, if_pos opened]
    exact refines
  · by_cases valid : config.validUrl = true
    · have client : (runtime.connect config).client = runtime.client
          ∧ (runtime.connect config).state = .connecting := by
        simp [WsRuntime.connect, if_neg opened, valid]
      refine .of_idle (client.1.trans refines.client) (by simp [client.2]) (fun i found => ?_)
      have sockets : (runtime.connect config).sockets = runtime.sockets ++ [.new] := by
        simp [WsRuntime.connect, if_neg opened, valid]
      rw [readyState_connect valid opened] at found
      rw [WsRuntime.streams, sockets]
      split at found
      · rename_i last
        rw [last, List.getElem?_concat_length]
        rfl
      · rw [List.getElem?_append_left (readyState_lt found)]
        exact refines.fresh i found
    · have failed : runtime.connect config = { runtime with state := .closed } := by
        simp [WsRuntime.connect, if_neg opened, valid]
      rw [failed]
      exact .of_idle refines.client (by simp) refines.fresh

/-- Unsubscribing every handler leaves none. -/
theorem foldl_unsubscribe (connection : WsConnection)
    (entries : List (String × SdkSubscription))
    (all : ∀ entry ∈ connection.client.subscriptions, entry ∈ entries)
    : (entries.map (fun entry => WsOp.unsubscribe entry.1)).foldl WsConnection.step connection
      = { connection with client := { connection.client with subscriptions := [] } } := by
  induction entries generalizing connection with
  | nil =>
      obtain ⟨⟨requestId, subscriptions⟩, streams⟩ := connection
      have empty : subscriptions = [] :=
        List.eq_nil_iff_forall_not_mem.mpr (fun entry member => nomatch all entry member)
      subst empty
      rfl
  | cons entry rest ih =>
      simp only [List.map_cons, List.foldl_cons, WsConnection.step]
      refine ih (connection.unsubscribe entry.1) (fun kept member => ?_)
      obtain ⟨present, differs⟩ := List.mem_filter.mp member
      rcases List.mem_cons.mp (all kept present) with rfl | later
      · simp at differs
      · exact later

-----------------------------------------------------------------------------------------
-- Calls
-----------------------------------------------------------------------------------------

/-- The connection after the course of the client so far. -/
def connection (runtime : WsRuntime) : WsConnection := WsConnection.run (views runtime.notices)

/-- One more notice is some more operations on the connection. -/
theorem connection_snoc {after : WsRuntime} {notice : WsNotice}
    (notices : after.notices = runtime.notices ++ [notice])
    : after.connection
      = (viewed runtime.connection notice).foldl WsConnection.step runtime.connection := by
  have grows : views after.notices
      = views runtime.notices ++ viewed runtime.connection notice := by
    rw [notices, views, List.foldl_append]
    rfl
  rw [connection, grows, WsConnection.run, List.foldl_append]
  rfl

theorem connection_same {after : WsRuntime} (notices : after.notices = runtime.notices)
    : after.connection = runtime.connection := by
  rw [connection, notices]
  rfl

/-- The client has the handlers of the connection. -/
def Follows (runtime : WsRuntime) : Prop := runtime.client = runtime.connection.client

theorem Follows.of_same {after : WsRuntime} (follows : runtime.Follows)
    (client : after.client = runtime.client) (notices : after.notices = runtime.notices)
    : after.Follows := by
  rw [Follows, client, connection_same notices]
  exact follows

/-- A notice that is nothing to the connection. -/
theorem Follows.tell (follows : runtime.Follows) (notice : WsNotice)
    (nothing : ∀ connection, viewed connection notice = [])
    : (runtime.tell notice).Follows := by
  rw [Follows, @connection_snoc _ (runtime.tell notice) notice rfl, nothing]
  exact follows

theorem Follows.act (follows : runtime.Follows) {call : WsCall} (noConnect : call ≠ .connect)
    (noSubscribe : ∀ kind, call ≠ .subscribe kind)
    : (runtime.act config call).Follows := by
  rw [Follows, connection_snoc (act_notices call)]
  cases call with
  | connect => exact absurd rfl noConnect
  | subscribe kind => exact absurd rfl (noSubscribe kind)
  | disconnect =>
      rw [viewed, foldl_unsubscribe _ _ (fun entry member => member), ← follows]
      rfl
  | unsubscribe id =>
      have same : runtime.client = runtime.connection.client := follows
      simp only [viewed, List.foldl_cons, List.foldl_nil, WsConnection.step,
        WsConnection.unsubscribe]
      rw [← same]
      rfl

/-- Handlers that neither connect nor subscribe. -/
structure Passive (calls : List WsCall) : Prop where
  noConnect : .connect ∉ calls
  noSubscribe : ∀ kind, .subscribe kind ∉ calls

theorem Passive.of_append {earlier later : List WsCall} (passive : Passive (earlier ++ later))
    : Passive earlier ∧ Passive later := by
  obtain ⟨noConnect, noSubscribe⟩ := passive
  simp only [List.mem_append, not_or] at noConnect noSubscribe
  exact ⟨⟨noConnect.1, fun kind => (noSubscribe kind).1⟩,
    ⟨noConnect.2, fun kind => (noSubscribe kind).2⟩⟩

theorem Follows.onerror (follows : runtime.Follows) (i : Nat) {onError : List HandlerCall}
    (passive : Passive (onError.flatMap HandlerCall.calls))
    : (runtime.onerror config i onError).Follows :=
  onerror_invariant (follows.tell .error (fun _ => rfl))
    (fun _ member _ kept => kept.act (fun same => passive.noConnect (same ▸ member))
      (fun kind same => passive.noSubscribe kind (same ▸ member)))
    (fun _ kept _ => kept.of_same rfl rfl)

theorem Follows.onclose (follows : runtime.Follows) {onClose onReconnect : List HandlerCall}
    (passive : Passive (onClose.flatMap HandlerCall.calls))
    (passive' : Passive (onReconnect.flatMap HandlerCall.calls))
    : (runtime.onclose config onClose onReconnect).Follows := by
  have closed : ({ runtime with state := .closed }.tell .closed).Follows :=
    @Follows.tell { runtime with state := .closed } (follows.of_same rfl rfl) .closed
      (fun _ => rfl)
  refine onclose_invariant closed
    (fun _ member _ kept => kept.act (fun same => passive.noConnect (same ▸ member))
      (fun kind same => passive.noSubscribe kind (same ▸ member))) ?_
  intro after kept _ _
  refine scheduleReconnect_invariant ?_ (fun _ held => held.tell _ (fun _ => rfl))
    (fun _ member _ held => held.act (fun same => passive'.noConnect (same ▸ member))
      (fun kind same => passive'.noSubscribe kind (same ▸ member)))
    (fun _ held => held.of_same rfl rfl)
  exact @Follows.tell { after with
      reconnectAttempts := after.reconnectAttempts + 1
      state := .reconnecting } (kept.of_same rfl rfl) _ (fun _ => rfl)

-----------------------------------------------------------------------------------------
-- Turns
-----------------------------------------------------------------------------------------

theorem streams_disconnect (i : Nat)
    : (runtime.disconnect config).streams i = runtime.streams i := by
  simp only [disconnect, streams]
  cases current : runtime.ws with
  | none => rfl
  | some j =>
      simp only [List.getElem?_modify]
      split
      · cases runtime.sockets[i]? with
        | none => rfl
        | some socket => cases stage : socket.readyState <;> simp [WsSocket.close, stage]
      · simp

/-- A client whose socket `i` has opened, while its handlers are called: no stream is renewed
yet, and if one of them has disconnected there is none to renew.
-/
structure Opening (config : WsConfig) (i : Nat) (runtime : WsRuntime) : Prop where
  single : Single config runtime
  follows : runtime.Follows
  idle : runtime.state ≠ .connecting
  current : runtime.state = .opened → runtime.ws = some i
  bare : runtime.streams i = some []
  quit : runtime.state ≠ .opened → runtime.client.subscriptions = []

theorem Opening.act {i : Nat} (opening : Opening config i runtime) {call : WsCall}
    (noConnect : call ≠ .connect) (noSubscribe : ∀ kind, call ≠ .subscribe kind)
    : Opening config i (runtime.act config call) := by
  have single := opening.single.act call (fun same => absurd same noConnect)
  have follows := @Follows.act config _ opening.follows call noConnect noSubscribe
  cases call with
  | connect => exact absurd rfl noConnect
  | subscribe kind => exact absurd rfl (noSubscribe kind)
  | disconnect =>
      refine ⟨single, follows, nofun, nofun, ?_, fun _ => rfl⟩
      exact (@streams_disconnect config (runtime.tell (.call .disconnect)) i).trans
        opening.bare
  | unsubscribe id =>
      refine ⟨single, follows, opening.idle, opening.current, opening.bare, fun closed => ?_⟩
      have none : runtime.client.subscriptions = [] := opening.quit closed
      simp [WsRuntime.act, WsRuntime.tell, WsRuntime.unsubscribe, none]

-- A handler that is subscribed while the socket opens gets two streams, where the connection has
-- one: it is sent at once and renewed.
example
    : (run .defaultConfig
        [.call .connect,
          .socketOpens 0 [{ calls := [.subscribe .gameTicks], throws := false }]]).view.streams
      = [.gameTicks, .gameTicks] := by
  decide +kernel

end WsRuntime

end VeloChain
