import VeloChain.Sdk.Connection

/-! The client has one live socket, which is the one that its state tells of.
This is so in all runs in which the application connects only when every earlier socket is
closed, and not from a handler; the reconnects of the client keep to that by themselves.
-/

namespace VeloChain

namespace WsRuntime

/-- The stage of a socket. -/
def readyState (i : Nat) (runtime : WsRuntime) : Option ReadyState :=
  runtime.sockets[i]?.map WsSocket.readyState

/-- The promise of the call that made a socket. -/
def promise (i : Nat) (runtime : WsRuntime) : Option CallPromise :=
  runtime.sockets[i]?.map WsSocket.promise

/-- The turns of an application that connects only when it is connected already, or when every
earlier socket is closed, and neither from a handler nor between the events of a socket that ends.
-/
def Patient (config : WsConfig) (runtime : WsRuntime) : List WsTurn → Prop
  | [] => True
  | turn :: rest =>
      (turn = .call .connect →
        runtime.state = .opened ∨ ∀ i r, runtime.readyState i = some r → r = .closed)
      ∧ .connect ∉ turn.inner
      ∧ Patient config (runtime.step config turn) rest

/-- Only the latest socket may be alive, and the state of the client is its stage. -/
structure Single (config : WsConfig) (runtime : WsRuntime) : Prop where
  latest
    : ∀ i r, runtime.readyState i = some r → r ≠ .closed → i + 1 = runtime.sockets.length
  connecting
    : ∀ i, runtime.readyState i = some .connecting →
        runtime.state = .connecting ∧ runtime.ws = some i
  opened
    : ∀ i, runtime.readyState i = some .opened → runtime.state = .opened ∧ runtime.ws = some i
  closing
    : ∀ i, runtime.readyState i = some .closing →
        runtime.state = .closed ∧ runtime.ws = none
        ∧ (config.autoReconnect → config.maxReconnectAttempts ≤ runtime.reconnectAttempts)
  state_connecting
    : runtime.state = .connecting →
        ∃ i, runtime.ws = some i ∧ runtime.readyState i = some .connecting
  state_opened
    : runtime.state = .opened → ∃ i, runtime.ws = some i ∧ runtime.readyState i = some .opened
  exceptions : runtime.exceptions = 0

-----------------------------------------------------------------------------------------
-- Sockets
-----------------------------------------------------------------------------------------

theorem readyState_lt {runtime : WsRuntime} {i : Nat} {r : ReadyState}
    (found : runtime.readyState i = some r)
    : i < runtime.sockets.length := by
  obtain ⟨socket, get, -⟩ := Option.map_eq_some_iff.mp found
  exact (List.getElem?_eq_some_iff.mp get).1

@[simp] theorem onSocket_length (i : Nat) (change : WsSocket → WsSocket) (runtime : WsRuntime)
    : (runtime.onSocket i change).sockets.length = runtime.sockets.length := by
  simp [onSocket]

theorem readyState_onSocket {change : WsSocket → WsSocket} {next : ReadyState → ReadyState}
    (moves : ∀ socket, (change socket).readyState = next socket.readyState) (i j : Nat)
    (runtime : WsRuntime)
    : (runtime.onSocket i change).readyState j
      = if i = j then (runtime.readyState j).map next else runtime.readyState j := by
  simp only [readyState, onSocket, List.getElem?_modify]
  split
  · cases runtime.sockets[j]? <;> simp [moves]
  · simp

/-- What does not touch the stage of a socket leaves all stages. -/
theorem readyState_onSocket_same {change : WsSocket → WsSocket}
    (same : ∀ socket, (change socket).readyState = socket.readyState) (i j : Nat)
    (runtime : WsRuntime)
    : (runtime.onSocket i change).readyState j = runtime.readyState j := by
  rw [@readyState_onSocket change id same]
  split <;> simp

theorem promise_onSocket {change : WsSocket → WsSocket} {next : CallPromise → CallPromise}
    (moves : ∀ socket, (change socket).promise = next socket.promise) (i j : Nat)
    (runtime : WsRuntime)
    : (runtime.onSocket i change).promise j
      = if i = j then (runtime.promise j).map next else runtime.promise j := by
  simp only [promise, onSocket, List.getElem?_modify]
  split
  · cases runtime.sockets[j]? <;> simp [moves]
  · simp

theorem promise_onSocket_same {change : WsSocket → WsSocket}
    (same : ∀ socket, (change socket).promise = socket.promise) (i j : Nat)
    (runtime : WsRuntime)
    : (runtime.onSocket i change).promise j = runtime.promise j := by
  rw [@promise_onSocket change id same]
  split <;> simp

-----------------------------------------------------------------------------------------
-- Sending
-----------------------------------------------------------------------------------------

/-- Nothing but what was sent over the sockets, and the request id, has changed. -/
structure Sent (before after : WsRuntime) : Prop where
  state : after.state = before.state
  ws : after.ws = before.ws
  reconnectAttempts : after.reconnectAttempts = before.reconnectAttempts
  timers : after.timers = before.timers
  subscriptions : after.client.subscriptions = before.client.subscriptions
  notices : after.notices = before.notices
  length : after.sockets.length = before.sockets.length
  readyState : ∀ i, after.readyState i = before.readyState i
  promise : ∀ i, after.promise i = before.promise i

theorem Sent.refl (runtime : WsRuntime) : Sent runtime runtime :=
  ⟨rfl, rfl, rfl, rfl, rfl, rfl, rfl, fun _ => rfl, fun _ => rfl⟩

theorem Sent.trans {first second third : WsRuntime} (one : Sent first second)
    (two : Sent second third)
    : Sent first third :=
  { state := two.state.trans one.state
    ws := two.ws.trans one.ws
    reconnectAttempts := two.reconnectAttempts.trans one.reconnectAttempts
    timers := two.timers.trans one.timers
    subscriptions := two.subscriptions.trans one.subscriptions
    notices := two.notices.trans one.notices
    length := two.length.trans one.length
    readyState := fun i => (two.readyState i).trans (one.readyState i)
    promise := fun i => (two.promise i).trans (one.promise i) }

theorem sendSubscriptionRequest_sent (method params : String) (runtime : WsRuntime)
    : Sent runtime (runtime.sendSubscriptionRequest method params).2 := by
  unfold sendSubscriptionRequest
  split
  · exact .refl runtime
  · rename_i i _
    split
    · exact .refl runtime
    · dsimp only
      split
      · exact ⟨rfl, rfl, rfl, rfl, rfl, rfl, rfl, fun _ => rfl, fun _ => rfl⟩
      · refine ⟨rfl, rfl, rfl, rfl, rfl, rfl, onSocket_length _ _ _, fun j => ?_, fun j => ?_⟩
        · exact readyState_onSocket_same (by intro socket; rfl) i j _
        · exact promise_onSocket_same (by intro socket; rfl) i j _
      · exact ⟨rfl, rfl, rfl, rfl, rfl, rfl, rfl, fun _ => rfl, fun _ => rfl⟩

/-- A client whose current socket is not connecting any more can send. -/
def Ready (runtime : WsRuntime) : Prop :=
  runtime.state = .opened → ∀ i, runtime.ws = some i → runtime.readyState i ≠ some .connecting

theorem Sent.ready {before after : WsRuntime} (sent : Sent before after) (ready : before.Ready)
    : after.Ready := by
  intro opened i current
  rw [sent.readyState]
  exact ready (sent.state ▸ opened) i (sent.ws ▸ current)

theorem sendSubscriptionRequest_ready {runtime : WsRuntime} (ready : runtime.Ready)
    (method params : String)
    : (runtime.sendSubscriptionRequest method params).1 = true
      ∧ (runtime.sendSubscriptionRequest method params).2.exceptions = runtime.exceptions := by
  unfold sendSubscriptionRequest
  split
  · exact ⟨rfl, rfl⟩
  · rename_i i current
    split
    · exact ⟨rfl, rfl⟩
    · rename_i opened
      dsimp only
      split
      · rename_i stage
        exact absurd stage (ready (not_not.mp opened) i current)
      · exact ⟨rfl, rfl⟩
      · exact ⟨rfl, rfl⟩

theorem resubscribe_sent (entries : List (String × SdkSubscription)) (runtime : WsRuntime)
    : Sent runtime (resubscribe entries runtime).2 := by
  induction entries generalizing runtime with
  | nil => exact .refl runtime
  | cons entry rest ih =>
      simp only [resubscribe]
      split
      · exact ih runtime
      · rename_i method _
        have sent := sendSubscriptionRequest_sent method
          (String.ofList (entry.1.toList.takeWhile (· != '_'))) runtime
        split
        · rename_i middle answer
          rw [answer] at sent
          exact sent.trans (ih middle)
        · rename_i middle answer
          rw [answer] at sent
          exact sent

theorem resubscribe_ready (entries : List (String × SdkSubscription)) {runtime : WsRuntime}
    (ready : runtime.Ready)
    : (resubscribe entries runtime).1 = true
      ∧ (resubscribe entries runtime).2.exceptions = runtime.exceptions := by
  induction entries generalizing runtime with
  | nil => exact ⟨rfl, rfl⟩
  | cons entry rest ih =>
      simp only [resubscribe]
      split
      · exact ih ready
      · rename_i method _
        let eventType := String.ofList (entry.1.toList.takeWhile (· != '_'))
        have sent := sendSubscriptionRequest_sent method eventType runtime
        obtain ⟨returns, same⟩ := sendSubscriptionRequest_ready ready method eventType
        split
        · rename_i middle answer
          rw [answer] at sent same
          obtain ⟨all, kept⟩ := ih (sent.ready ready)
          exact ⟨all, kept.trans same⟩
        · rename_i middle answer
          rw [answer] at returns
          simp at returns

-----------------------------------------------------------------------------------------
-- Handlers
-----------------------------------------------------------------------------------------

variable {config : WsConfig} {runtime : WsRuntime}

/-- What every call keeps holds after all of them. -/
theorem acts_invariant {inv : WsRuntime → Prop} {calls : List WsCall}
    (keeps : ∀ call ∈ calls, ∀ runtime, inv runtime → inv (runtime.act config call))
    (start : inv runtime)
    : inv (runtime.acts config calls) := by
  induction calls generalizing runtime with
  | nil => exact start
  | cons call rest ih =>
      obtain ⟨here, later⟩ := List.forall_mem_cons.mp keeps
      exact ih later (here runtime start)

/-- What the calls of the handlers keep, and what they are told, holds after the handlers,
whether one throws or not.
-/
theorem forEach_invariant {inv : WsRuntime → Prop} {told : WsRuntime → WsRuntime}
    {handlers : List HandlerCall} (tells : ∀ runtime, inv runtime → inv (told runtime))
    (keeps
      : ∀ call ∈ handlers.flatMap HandlerCall.calls, ∀ runtime, inv runtime →
          inv (runtime.act config call))
    (start : inv runtime)
    : inv (runtime.forEach config told handlers).2 := by
  induction handlers generalizing runtime with
  | nil => exact start
  | cons handler rest ih =>
      rw [List.flatMap_cons] at keeps
      have called : inv ((told runtime).acts config handler.calls) :=
        acts_invariant (fun call member => keeps call (List.mem_append_left _ member))
          (tells runtime start)
      simp only [forEach]
      split
      · exact called
      · exact ih (fun call member => keeps call (List.mem_append_right _ member)) called

/-- Handlers of a list that do not throw are all called. -/
theorem forEach_throws (told : WsRuntime → WsRuntime) (handlers : List HandlerCall)
    (runtime : WsRuntime)
    : (runtime.forEach config told handlers).1 = !handlers.any HandlerCall.throws := by
  induction handlers generalizing runtime with
  | nil => rfl
  | cons handler rest ih =>
      simp only [forEach, List.any_cons]
      split
      · rename_i throws
        simp [throws]
      · rename_i returns
        simp [ih, returns]

/-- What the error event and its handlers keep, holds after them. -/
theorem onerror_invariant {inv : WsRuntime → Prop} {i : Nat} {onError : List HandlerCall}
    (start : inv (runtime.tell .error))
    (keeps
      : ∀ call ∈ onError.flatMap HandlerCall.calls, ∀ after, inv after →
          inv (after.act config call))
    (settles
      : ∀ after, inv after → after.state = .connecting →
          inv (after.onSocket i (.settle .rejected)))
    : inv (runtime.onerror config i onError) := by
  have handled : inv ((runtime.tell .error).forEach config id onError).2 :=
    forEach_invariant (fun _ kept => kept) keeps start
  unfold onerror
  split
  · rename_i after thrown
    rw [thrown] at handled
    exact handled
  · rename_i after returned
    rw [returned] at handled
    split
    · rename_i connecting
      exact settles after handled connecting
    · exact handled

/-- What the announcement of a reconnect and its handlers keep, holds with its timer. -/
theorem scheduleReconnect_invariant {inv : WsRuntime → Prop} {onReconnect : List HandlerCall}
    (start
      : inv
          ({ runtime with
            reconnectAttempts := runtime.reconnectAttempts + 1
            state := .reconnecting }.tell
              (.scheduled (config.reconnectDelay * 2 ^ runtime.reconnectAttempts))))
    (tells : ∀ after, inv after → inv (after.tell (.reconnect after.reconnectAttempts)))
    (keeps
      : ∀ call ∈ onReconnect.flatMap HandlerCall.calls, ∀ after, inv after →
          inv (after.act config call))
    (waits
      : ∀ after, inv after →
          inv
            { after with
              timers :=
                after.timers ++ [config.reconnectDelay * 2 ^ runtime.reconnectAttempts] })
    : inv (runtime.scheduleReconnect config onReconnect) := by
  unfold scheduleReconnect
  extract_lets reconnectAttempts waiting delay
  have isDelay : config.reconnectDelay * 2 ^ runtime.reconnectAttempts = delay := rfl
  rw [isDelay] at start waits
  have handled := @forEach_invariant config (waiting.tell (.scheduled delay)) inv
    (fun runtime => runtime.tell (.reconnect runtime.reconnectAttempts)) onReconnect tells keeps
    start
  split
  · rename_i after thrown
    rw [thrown] at handled
    exact handled
  · rename_i after returned
    rw [returned] at handled
    exact waits after handled

/-- What the close event and its handlers keep, holds after them, also where a reconnect follows.
-/
theorem onclose_invariant {inv : WsRuntime → Prop} {onClose onReconnect : List HandlerCall}
    (start : inv ({ runtime with state := .closed }.tell .closed))
    (keeps
      : ∀ call ∈ onClose.flatMap HandlerCall.calls, ∀ after, inv after →
          inv (after.act config call))
    (retries
      : ∀ after, inv after → config.autoReconnect = true →
          after.reconnectAttempts < config.maxReconnectAttempts →
          inv (after.scheduleReconnect config onReconnect))
    : inv (runtime.onclose config onClose onReconnect) := by
  unfold onclose
  extract_lets left
  have handled : inv (left.forEach config id onClose).2 :=
    forEach_invariant (fun _ kept => kept) keeps start
  split
  · rename_i after thrown
    rw [thrown] at handled
    exact handled
  · rename_i after returned
    rw [returned] at handled
    split
    · rename_i more
      exact retries after handled more.1 more.2
    · exact handled

/-- The end of a socket: nothing happens to one that is gone, and to another one the close event,
after an error event and the calls between them if it has failed.
-/
theorem socketCloses_invariant {inv final : WsRuntime → Prop} {i : Nat} {ending : SocketEnd}
    (idle : (∀ r, runtime.readyState i = some r → r = .closed) → final runtime)
    (lost
      : ∀ r, runtime.readyState i = some r → r ≠ .closed →
          inv (runtime.onSocket i (fun socket =>
            { socket with readyState := .closed, streams := [] })))
    (errors : ∀ after, inv after → inv (after.onerror config i ending.onError))
    (between
      : ∀ call ∈ ending.afterError, ∀ after, inv after → inv (after.act config call))
    (closes
      : ∀ after, inv after → final (after.onclose config ending.onClose ending.onReconnect))
    : final (runtime.socketCloses config i ending) := by
  unfold socketCloses
  extract_lets close
  split
  · rename_i none
    exact idle (fun r found => absurd (found.symm.trans none) (Option.some_ne_none r))
  · rename_i closed
    exact idle (fun r found => Option.some.inj (found.symm.trans closed))
  · rename_i r alive found
    have start : inv (runtime.onSocket i close) := lost r found alive
    split
    · exact closes _ (acts_invariant between (errors _ start))
    · exact closes _ start

/-- A client whose current socket has opened, before any handler is called. -/
def opening (i : Nat) (runtime : WsRuntime) : WsRuntime :=
  { runtime.onSocket i (fun socket => { socket with readyState := .opened }) with
    state := .opened, reconnectAttempts := 0 }.tell .opened

theorem socketOpens_idle {i : Nat} (other : runtime.readyState i ≠ some .connecting)
    (onOpen : List HandlerCall)
    : runtime.socketOpens config i onOpen = runtime := by
  unfold socketOpens
  split
  · rename_i stage
    exact absurd stage other
  · rfl

/-- What the opening of a socket does to a client that can send after its handlers. -/
theorem socketOpens_cases {i : Nat} (found : runtime.readyState i = some .connecting)
    {onOpen : List HandlerCall} {handled : WsRuntime}
    (called : ((runtime.opening i).forEach config id onOpen).2 = handled)
    (ready : handled.Ready)
    : (onOpen.any HandlerCall.throws = true
        ∧ runtime.socketOpens config i onOpen = handled)
      ∨ (onOpen.any HandlerCall.throws = false
        ∧ ∃ middle, Sent (handled.tell .renewed) middle
            ∧ handled.resubscribeAll = (true, middle)
            ∧ middle.exceptions = handled.exceptions
            ∧ runtime.socketOpens config i onOpen = middle.onSocket i (.settle .resolved)) := by
  have throws := @forEach_throws config id onOpen (runtime.opening i)
  rw [readyState] at found
  have opens : runtime.socketOpens config i onOpen
      = (runtime.onSocket i (fun socket => { socket with readyState := .opened })).onopen config
          i onOpen := by
    rw [socketOpens, found]
  rw [opens]
  unfold onopen
  rw [opening] at called throws
  dsimp only
  split
  · rename_i after thrown
    rw [thrown] at called throws
    exact .inl ⟨by simpa using throws.symm, called⟩
  · rename_i after returned
    rw [returned] at called throws
    dsimp only at called
    subst called
    have sent := resubscribe_sent after.client.subscriptions (after.tell .renewed)
    have renewed : (after.tell .renewed).Ready := ready
    obtain ⟨returns, same⟩ := resubscribe_ready after.client.subscriptions renewed
    refine .inr ⟨by simpa using throws.symm, _, sent, Prod.ext returns rfl, same, ?_⟩
    simp only [resubscribeAll]
    split
    · rename_i middle answer
      rw [answer]
    · rename_i middle answer
      rw [answer] at returns
      simp at returns

-----------------------------------------------------------------------------------------
-- Turns
-----------------------------------------------------------------------------------------

theorem Single.of_sent {after : WsRuntime} (single : Single config runtime)
    (sent : Sent runtime after) (same : after.exceptions = runtime.exceptions)
    : Single config after := by
  obtain ⟨latest, connecting, opened, closing, stateConnecting, stateOpened, exceptions⟩ := single
  constructor
  · intro i r found alive
    rw [sent.readyState] at found
    rw [sent.length]
    exact latest i r found alive
  · intro i found
    rw [sent.readyState] at found
    rw [sent.state, sent.ws]
    exact connecting i found
  · intro i found
    rw [sent.readyState] at found
    rw [sent.state, sent.ws]
    exact opened i found
  · intro i found
    rw [sent.readyState] at found
    rw [sent.state, sent.ws, sent.reconnectAttempts]
    exact closing i found
  · intro state
    obtain ⟨i, current, found⟩ := stateConnecting (sent.state ▸ state)
    exact ⟨i, sent.ws.trans current, (sent.readyState i).trans found⟩
  · intro state
    obtain ⟨i, current, found⟩ := stateOpened (sent.state ▸ state)
    exact ⟨i, sent.ws.trans current, (sent.readyState i).trans found⟩
  · rw [same, exceptions]

/-- A client all of whose sockets are closed, and that knows it. -/
theorem Single.of_closed
    (closed : ∀ i r, runtime.readyState i = some r → r = .closed)
    (notConnecting : runtime.state ≠ .connecting) (notOpened : runtime.state ≠ .opened)
    (exceptions : runtime.exceptions = 0)
    : Single config runtime where
  latest i r found alive := absurd (closed i r found) alive
  connecting i found := nomatch closed i _ found
  opened i found := nomatch closed i _ found
  closing i found := nomatch closed i _ found
  state_connecting state := absurd state notConnecting
  state_opened state := absurd state notOpened
  exceptions := exceptions

theorem Single.ready (single : Single config runtime) : runtime.Ready := by
  intro opened i current found
  obtain ⟨state, -⟩ := single.connecting i found
  rw [opened] at state
  exact nomatch state

/-- A client that is waiting to reconnect has no live socket. -/
theorem Single.closed_of_reconnecting (single : Single config runtime)
    (waits : runtime.state = .reconnecting) {i : Nat} {r : ReadyState}
    (found : runtime.readyState i = some r)
    : r = .closed := by
  cases r with
  | closed => rfl
  | connecting => exact nomatch waits.symm.trans (single.connecting i found).1
  | opened => exact nomatch waits.symm.trans (single.opened i found).1
  | closing => exact nomatch waits.symm.trans (single.closing i found).1

theorem readyState_connect (valid : config.validUrl = true) (idle : runtime.state ≠ .opened)
    (i : Nat)
    : (runtime.connect config).readyState i
      = if i = runtime.sockets.length then some .connecting else runtime.readyState i := by
  simp only [connect, if_neg idle, valid, ↓reduceIte, readyState, List.getElem?_append]
  split
  · rename_i old
    rw [if_neg (by omega)]
  · rename_i new
    split
    · rename_i last
      simp [last, WsSocket.new]
    · rename_i other
      rw [List.getElem?_eq_none (by simp; omega), List.getElem?_eq_none (by omega)]

theorem Single.connect (single : Single config runtime)
    (patient : runtime.state = .opened ∨ ∀ i r, runtime.readyState i = some r → r = .closed)
    : Single config (runtime.connect config) := by
  by_cases state : runtime.state = .opened
  · simpa only [WsRuntime.connect, if_pos state] using single
  · have closed := patient.resolve_left state
    by_cases valid : config.validUrl = true
    · have stages := readyState_connect valid state
      have fields : (runtime.connect config).state = .connecting
          ∧ (runtime.connect config).ws = some runtime.sockets.length
          ∧ (runtime.connect config).sockets.length = runtime.sockets.length + 1
          ∧ (runtime.connect config).exceptions = runtime.exceptions := by
        simp [WsRuntime.connect, if_neg state, valid]
      obtain ⟨connects, current, length, same⟩ := fields
      have only : ∀ i r, (runtime.connect config).readyState i = some r → r ≠ .closed →
          i = runtime.sockets.length ∧ r = .connecting := by
        intro i r found alive
        rw [stages] at found
        split at found
        · rename_i last
          exact ⟨last, (Option.some.inj found).symm⟩
        · exact absurd (closed i r found) alive
      constructor
      · intro i r found alive
        rw [length, (only i r found alive).1]
      · intro i found
        rw [connects, current, (only i _ found (by decide)).1]
        exact ⟨rfl, rfl⟩
      · intro i found
        exact nomatch (only i _ found (by decide)).2
      · intro i found
        exact nomatch (only i _ found (by decide)).2
      · intro _
        refine ⟨_, current, ?_⟩
        rw [stages, if_pos rfl]
      · intro opened
        exact nomatch connects.symm.trans opened
      · rw [same, single.exceptions]
    · have failed : runtime.connect config = { runtime with state := .closed } := by
        simp [WsRuntime.connect, if_neg state, valid]
      rw [failed]
      exact .of_closed closed nofun nofun single.exceptions

/-- What a call of `disconnect` makes of the stages. -/
theorem readyState_disconnect (i : Nat)
    : (runtime.disconnect config).readyState i
      = if runtime.ws = some i then
          (runtime.readyState i).map (fun r => if r = .closed then .closed else .closing)
        else runtime.readyState i := by
  simp only [disconnect, readyState]
  cases current : runtime.ws with
  | none => simp
  | some j =>
      simp only [List.getElem?_modify, Option.some.injEq]
      split
      · cases runtime.sockets[i]? with
        | none => rfl
        | some socket => cases stage : socket.readyState <;> simp [WsSocket.close, stage]
      · simp

theorem Single.disconnect (single : Single config runtime)
    : Single config (runtime.disconnect config) := by
  have length : (runtime.disconnect config).sockets.length = runtime.sockets.length := by
    simp only [WsRuntime.disconnect]
    split <;> simp
  -- The live socket, if it was not closing already, is the current one.
  have leaves : ∀ i r, (runtime.disconnect config).readyState i = some r → r ≠ .closed →
      r = .closing ∧ i + 1 = runtime.sockets.length := by
    intro i r found alive
    rw [readyState_disconnect] at found
    split at found
    · obtain ⟨before, was, becomes⟩ := Option.map_eq_some_iff.mp found
      split at becomes
      · exact absurd becomes.symm alive
      · rename_i live
        exact ⟨becomes.symm, single.latest i before was live⟩
    · rename_i other
      have last := single.latest i r found alive
      cases r with
      | closed => exact absurd rfl alive
      | connecting => exact absurd (single.connecting i found).2 other
      | opened => exact absurd (single.opened i found).2 other
      | closing => exact ⟨rfl, last⟩
  constructor
  · intro i r found alive
    rw [length]
    exact (leaves i r found alive).2
  · intro i found
    exact nomatch (leaves i _ found (by decide)).1
  · intro i found
    exact nomatch (leaves i _ found (by decide)).1
  · intro i _
    refine ⟨rfl, rfl, fun reconnects => ?_⟩
    simp [WsRuntime.disconnect, reconnects]
  · exact nofun
  · exact nofun
  · exact single.exceptions

theorem Single.subscribe (single : Single config runtime) (kind : SdkSubscription)
    : Single config (runtime.subscribe kind) := by
  unfold WsRuntime.subscribe
  extract_lets requestId id subscriptions renamed
  have same : Single config renamed :=
    ⟨single.1, single.2, single.3, single.4, single.5, single.6, single.7⟩
  exact same.of_sent (sendSubscriptionRequest_sent _ _ _)
    (sendSubscriptionRequest_ready same.ready _ _).2

theorem Single.tell (single : Single config runtime) (notice : WsNotice)
    : Single config (runtime.tell notice) :=
  ⟨single.1, single.2, single.3, single.4, single.5, single.6, single.7⟩

/-- What one call preserves. -/
theorem Single.act (single : Single config runtime) (call : WsCall)
    (patient
      : call = .connect →
          runtime.state = .opened ∨ ∀ i r, runtime.readyState i = some r → r = .closed)
    : Single config (runtime.act config call) := by
  have same := single.tell (.call call)
  cases call with
  | connect => exact same.connect (patient rfl)
  | disconnect => exact same.disconnect
  | subscribe kind => exact same.subscribe kind
  | unsubscribe id => exact ⟨same.1, same.2, same.3, same.4, same.5, same.6, same.7⟩

/-- A connecting socket opens only as the current one, and is the live one when the handlers are
called.
-/
theorem Single.opening (single : Single config runtime) {i : Nat}
    (found : runtime.readyState i = some .connecting)
    : Single config (runtime.opening i) := by
  obtain ⟨-, current⟩ := single.connecting i found
  have stages : ∀ j, (runtime.opening i).readyState j
      = if i = j then (runtime.readyState j).map (fun _ => .opened) else runtime.readyState j :=
    fun j => readyState_onSocket (by intro socket; rfl) i j runtime
  have only : ∀ j r, (runtime.opening i).readyState j = some r → r ≠ .closed →
      j = i ∧ r = .opened := by
    intro j r stage alive
    rw [stages] at stage
    split at stage
    · rename_i same
      obtain ⟨before, -, becomes⟩ := Option.map_eq_some_iff.mp stage
      exact ⟨same.symm, becomes.symm⟩
    · have last := single.latest i _ found (by decide)
      have other := single.latest j r stage alive
      omega
  constructor
  · intro j r stage alive
    rw [(only j r stage alive).1]
    exact (single.latest i _ found (by decide)).trans (onSocket_length _ _ _).symm
  · intro j stage
    exact nomatch (only j _ stage (by decide)).2
  · intro j stage
    rw [(only j _ stage (by decide)).1]
    exact ⟨rfl, current⟩
  · intro j stage
    exact nomatch (only j _ stage (by decide)).2
  · exact nofun
  · intro _
    refine ⟨i, current, ?_⟩
    have stage := stages i
    rw [if_pos rfl, found] at stage
    exact stage
  · exact single.exceptions

/-- Handlers that do not connect. -/
theorem Single.forEach (single : Single config runtime) (told : WsRuntime → WsRuntime)
    (tells : ∀ runtime, Single config runtime → Single config (told runtime))
    {handlers : List HandlerCall} (noConnect : .connect ∉ handlers.flatMap HandlerCall.calls)
    : Single config (runtime.forEach config told handlers).2 :=
  forEach_invariant tells
    (fun call member _ kept =>
      kept.act call (fun connects => absurd (connects ▸ member) noConnect))
    single

theorem Single.settle (single : Single config runtime) (i : Nat) (outcome : CallPromise)
    : Single config (runtime.onSocket i (.settle outcome)) := by
  have stages : ∀ j, (runtime.onSocket i (.settle outcome)).readyState j = runtime.readyState j :=
    fun j => readyState_onSocket_same (by intro socket; rfl) i j runtime
  constructor
  · intro j r found alive
    rw [stages] at found
    rw [onSocket_length]
    exact single.latest j r found alive
  · intro j found
    exact single.connecting j ((stages j).symm.trans found)
  · intro j found
    exact single.opened j ((stages j).symm.trans found)
  · intro j found
    exact single.closing j ((stages j).symm.trans found)
  · intro state
    obtain ⟨j, current, found⟩ := single.state_connecting state
    exact ⟨j, current, (stages j).trans found⟩
  · intro state
    obtain ⟨j, current, found⟩ := single.state_opened state
    exact ⟨j, current, (stages j).trans found⟩
  · exact single.exceptions

theorem Single.socketOpens (single : Single config runtime) (i : Nat)
    {onOpen : List HandlerCall} (noConnect : .connect ∉ onOpen.flatMap HandlerCall.calls)
    : Single config (runtime.socketOpens config i onOpen) := by
  by_cases found : runtime.readyState i = some .connecting
  · have handled := (single.opening found).forEach id (fun _ kept => kept) noConnect
    obtain ⟨-, thrown⟩ | ⟨-, middle, sent, -, same, opens⟩ :=
      socketOpens_cases found rfl handled.ready
    · rw [thrown]
      exact handled
    · rw [opens]
      exact ((handled.tell .renewed).of_sent sent same).settle i .resolved
  · rw [socketOpens_idle found]
    exact single

/-- A client all of whose sockets are closed, whatever it says. -/
structure Gone (runtime : WsRuntime) : Prop where
  closed : ∀ i r, runtime.readyState i = some r → r = .closed
  exceptions : runtime.exceptions = 0

theorem Gone.ready (gone : Gone runtime) : runtime.Ready :=
  fun _ i _ found => nomatch gone.closed i _ found

/-- A call that does not connect leaves the state of the client, or closes it. -/
theorem act_state {call : WsCall} (other : call ≠ .connect)
    : (runtime.act config call).state = runtime.state
      ∨ (runtime.act config call).state = .closed := by
  cases call with
  | connect => exact absurd rfl other
  | disconnect => exact .inr rfl
  | subscribe kind => exact .inl (sendSubscriptionRequest_sent _ _ _).state
  | unsubscribe id => exact .inl rfl

theorem Gone.act (gone : Gone runtime) {call : WsCall} (other : call ≠ .connect)
    : Gone (runtime.act config call) := by
  cases call with
  | connect => exact absurd rfl other
  | disconnect =>
      refine ⟨fun i r found => ?_, gone.exceptions⟩
      have stages := @readyState_disconnect config (runtime.tell (.call .disconnect)) i
      rw [WsRuntime.act, stages] at found
      split at found
      · obtain ⟨before, was, becomes⟩ := Option.map_eq_some_iff.mp found
        rw [if_pos (gone.closed i before was)] at becomes
        exact becomes.symm
      · exact gone.closed i r found
  | subscribe kind =>
      simp only [WsRuntime.act]
      unfold WsRuntime.subscribe
      extract_lets requestId id subscriptions renamed
      have ready : renamed.Ready := gone.ready
      have sent := sendSubscriptionRequest_sent kind.method kind.subKey renamed
      refine ⟨fun i r found => gone.closed i r ((sent.readyState i).symm.trans found), ?_⟩
      exact (sendSubscriptionRequest_ready ready _ _).2.trans gone.exceptions
  | unsubscribe id => exact ⟨gone.closed, gone.exceptions⟩

/-- A client all of whose sockets are closed and that says so, or waits to reconnect. -/
structure Left (runtime : WsRuntime) : Prop extends Gone runtime where
  state : runtime.state = .closed ∨ runtime.state = .reconnecting

theorem Left.single (left : Left runtime) : Single config runtime :=
  .of_closed left.closed (by rcases left.state with state | state <;> simp [state])
    (by rcases left.state with state | state <;> simp [state]) left.exceptions

theorem Left.act (left : Left runtime) {call : WsCall} (other : call ≠ .connect)
    : Left (runtime.act config call) := by
  refine ⟨left.toGone.act other, ?_⟩
  rcases @act_state config runtime call other with state | state
  · rw [state]
    exact left.state
  · exact .inl state

theorem Left.scheduleReconnect (left : Left runtime) {onReconnect : List HandlerCall}
    (noConnect : .connect ∉ onReconnect.flatMap HandlerCall.calls)
    : Left (runtime.scheduleReconnect config onReconnect) :=
  scheduleReconnect_invariant ⟨⟨left.closed, left.exceptions⟩, .inr rfl⟩
    (fun _ kept => ⟨⟨kept.closed, kept.exceptions⟩, kept.state⟩)
    (fun _ member _ kept => kept.act (fun connects => noConnect (connects ▸ member)))
    (fun _ kept => ⟨⟨kept.closed, kept.exceptions⟩, kept.state⟩)

/-- When the sockets are gone, the client is told so by the close event. -/
theorem Gone.onclose (gone : Gone runtime) {onClose onReconnect : List HandlerCall}
    (noConnect : .connect ∉ onClose.flatMap HandlerCall.calls)
    (noConnect' : .connect ∉ onReconnect.flatMap HandlerCall.calls)
    : Left (runtime.onclose config onClose onReconnect) :=
  onclose_invariant ⟨⟨gone.closed, gone.exceptions⟩, .inl rfl⟩
    (fun _ member _ kept => kept.act (fun connects => noConnect (connects ▸ member)))
    (fun _ kept _ _ => kept.scheduleReconnect noConnect')

theorem Gone.onerror (gone : Gone runtime) (i : Nat) {onError : List HandlerCall}
    (noConnect : .connect ∉ onError.flatMap HandlerCall.calls)
    : Gone (runtime.onerror config i onError) := by
  refine onerror_invariant ⟨gone.closed, gone.exceptions⟩
    (fun _ member _ kept => kept.act (fun connects => noConnect (connects ▸ member))) ?_
  intro after kept _
  refine ⟨fun j r found => kept.closed j r ?_, kept.exceptions⟩
  rwa [readyState_onSocket_same (by intro socket; rfl)] at found

/-- The end of its only live socket leaves a client without one. -/
theorem Single.gone (single : Single config runtime) {i : Nat} {r : ReadyState}
    {change : WsSocket → WsSocket} (closes : ∀ socket, (change socket).readyState = .closed)
    (found : runtime.readyState i = some r) (alive : r ≠ .closed)
    : Gone (runtime.onSocket i change) := by
  refine ⟨fun j q stage => ?_, single.exceptions⟩
  rw [@readyState_onSocket change (fun _ => .closed) closes] at stage
  split at stage
  · obtain ⟨_, -, becomes⟩ := Option.map_eq_some_iff.mp stage
    exact becomes.symm
  · by_contra live
    have last := single.latest i r found alive
    have other := single.latest j q stage live
    omega

theorem noConnect_socketCloses {i : Nat} {ending : SocketEnd}
    (noConnect : .connect ∉ (WsTurn.socketCloses i ending).inner)
    : .connect ∉ ending.onError.flatMap HandlerCall.calls
      ∧ .connect ∉ ending.afterError
      ∧ .connect ∉ ending.onClose.flatMap HandlerCall.calls
      ∧ .connect ∉ ending.onReconnect.flatMap HandlerCall.calls := by
  simpa only [WsTurn.inner, List.mem_append, not_or, and_assoc] using noConnect

/-- A socket that was not closed before leaves a client that says so. -/
theorem Single.left_socketCloses (single : Single config runtime) {i : Nat} {r : ReadyState}
    (found : runtime.readyState i = some r) (alive : r ≠ .closed) {ending : SocketEnd}
    (noConnect : .connect ∉ (WsTurn.socketCloses i ending).inner)
    : Left (runtime.socketCloses config i ending) := by
  obtain ⟨errors, between, closes, reconnects⟩ := noConnect_socketCloses noConnect
  refine socketCloses_invariant (fun dead => absurd (dead r found) alive)
    (fun q stage live => single.gone (by intro socket; rfl) stage live)
    (fun _ gone => gone.onerror i errors)
    (fun _ member _ gone => gone.act (fun same => between (same ▸ member)))
    (fun _ gone => gone.onclose closes reconnects)

theorem socketCloses_idle {i : Nat} (dead : ∀ r, runtime.readyState i = some r → r = .closed)
    (ending : SocketEnd)
    : runtime.socketCloses config i ending = runtime := by
  unfold socketCloses
  extract_lets close
  split
  · rfl
  · rfl
  · rename_i r alive found
    exact absurd (dead r found) alive

theorem Single.socketCloses (single : Single config runtime) (i : Nat) {ending : SocketEnd}
    (noConnect : .connect ∉ (WsTurn.socketCloses i ending).inner)
    : Single config (runtime.socketCloses config i ending) := by
  by_cases dead : ∀ r, runtime.readyState i = some r → r = .closed
  · rw [socketCloses_idle dead]
    exact single
  · push Not at dead
    obtain ⟨r, found, alive⟩ := dead
    exact (single.left_socketCloses found alive noConnect).single

theorem Single.timerFires (single : Single config runtime) (i : Nat)
    : Single config (runtime.timerFires config i) := by
  unfold WsRuntime.timerFires
  split
  · dsimp only
    have same : Single config { runtime with timers := runtime.timers.eraseIdx i } :=
      ⟨single.1, single.2, single.3, single.4, single.5, single.6, single.7⟩
    split
    · rename_i waits
      exact same.connect (.inr (fun j r found => single.closed_of_reconnecting waits found))
    · exact same
  · exact single

/-- What one turn preserves. -/
theorem Single.step (single : Single config runtime) (turn : WsTurn)
    (patient
      : turn = .call .connect →
          runtime.state = .opened ∨ ∀ i r, runtime.readyState i = some r → r = .closed)
    (noConnect : .connect ∉ turn.inner)
    : Single config (runtime.step config turn) := by
  cases turn with
  | call call => exact single.act call (fun connects => patient (connects ▸ rfl))
  | socketOpens i onOpen => exact single.socketOpens i noConnect
  | socketCloses i ending => exact single.socketCloses i noConnect
  | timerFires i => exact single.timerFires i

theorem single_new : Single config new :=
  .of_closed (fun i r found => by simp [readyState, new] at found) nofun nofun rfl

-----------------------------------------------------------------------------------------
-- Runs
-----------------------------------------------------------------------------------------

theorem steps_append (earlier later : List WsTurn) (runtime : WsRuntime)
    : steps config (earlier ++ later) runtime = steps config later (steps config earlier runtime) :=
  List.foldl_append

theorem run_snoc (turns : List WsTurn) (turn : WsTurn)
    : run config (turns ++ [turn]) = (run config turns).step config turn := by
  rw [run, steps_append]
  rfl

/-- A run goes through the clients of its beginnings. -/
theorem Patient.steps {turns : List WsTurn} (patient : runtime.Patient config turns)
    (single : Single config runtime)
    : Single config (steps config turns runtime) := by
  induction turns generalizing runtime with
  | nil => exact single
  | cons turn rest ih =>
      obtain ⟨careful, noConnect, later⟩ := patient
      exact ih later (single.step turn careful noConnect)

theorem Patient.run {turns : List WsTurn} (patient : new.Patient config turns)
    : Single config (run config turns) :=
  patient.steps single_new

/-- The end of a socket that has failed, with one handler of its close event. -/
def failing (onClose : HandlerCall) : SocketEnd :=
  { failed := true, onError := [], afterError := [], onClose := [onClose], onReconnect := [] }

-- An application that does not wait gets a second socket beside the first one, and so does one
-- whose handler connects when the socket is lost: the timer of the client makes another one.
example
    : (WsRuntime.run .defaultConfig [.call .connect, .call .connect]).sockets.map
        WsSocket.readyState
      = [.connecting, .connecting] := by
  decide

example
    : (WsRuntime.run .defaultConfig
        [.call .connect, .socketOpens 0 [],
          .socketCloses 0 (failing { calls := [.connect], throws := false }),
          .timerFires 0]).sockets.map WsSocket.readyState
      = [.closed, .connecting, .connecting] := by
  decide

end WsRuntime

end VeloChain
