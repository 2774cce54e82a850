import VeloChain.Sdk.ConnectCalls

/-! How often the client connects again by itself, and after which delays.
Since the last time that a socket has opened, each reconnect comes after twice the delay of the
one before, and they are at most as many as is configured. The handlers are told which one it is,
unless `disconnect` has spent all attempts. This holds for every application, patient or not,
whatever its handlers do.
-/

namespace VeloChain

/-- The delays of the reconnects that were announced since a socket has opened. -/
def reconnectsSinceOpen (notices : List WsNotice) : List Nat :=
  notices.foldl (fun delays notice =>
      match notice with
      | .opened => []
      | .scheduled delay => delays ++ [delay]
      | .call _ | .renewed | .closed | .error | .reconnect _ => delays)
    []

/-- The application has disconnected since a socket has opened. -/
def disconnectedSinceOpen (notices : List WsNotice) : Bool :=
  notices.foldl (fun disconnected notice =>
      match notice with
      | .opened => false
      | .call .disconnect => true
      | .call _ | .renewed | .closed | .error | .scheduled _ | .reconnect _ => disconnected)
    false

namespace WsConfig

/-- How many reconnects may follow one another. -/
def budget (config : WsConfig) : Nat :=
  if config.autoReconnect then config.maxReconnectAttempts else 0

/-- The delays of the first reconnects. -/
def backOff (config : WsConfig) (n : Nat) : List Nat :=
  (List.range n).map (fun k => config.reconnectDelay * 2 ^ k)

theorem backOff_succ (config : WsConfig) (n : Nat)
    : config.backOff (n + 1) = config.backOff n ++ [config.reconnectDelay * 2 ^ n] := by
  simp [backOff, List.range_succ]

@[simp] theorem length_backOff (config : WsConfig) (n : Nat) : (config.backOff n).length = n := by
  simp [backOff]

/-- What the client counts: the reconnects since a socket has opened, or all attempts after a
`disconnect`.
-/
def counts (config : WsConfig) (notices : List WsNotice) : Nat :=
  if config.autoReconnect && disconnectedSinceOpen notices then config.maxReconnectAttempts
  else (reconnectsSinceOpen notices).length

end WsConfig

/-- A notice that says nothing of openings, reconnects and disconnects. -/
def WsNotice.neutral : WsNotice → Bool
  | .call .disconnect | .opened | .scheduled _ | .reconnect _ => false
  | .call _ | .renewed | .closed | .error => true

theorem reconnectsSinceOpen_neutral {notice : WsNotice} (neutral : notice.neutral = true)
    (notices : List WsNotice)
    : reconnectsSinceOpen (notices ++ [notice]) = reconnectsSinceOpen notices
      ∧ disconnectedSinceOpen (notices ++ [notice]) = disconnectedSinceOpen notices := by
  rw [reconnectsSinceOpen, disconnectedSinceOpen, List.foldl_append, List.foldl_append]
  cases notice with
  | call call =>
      cases call with
      | disconnect => exact nomatch neutral
      | connect | subscribe _ | unsubscribe _ => exact ⟨rfl, rfl⟩
  | renewed | closed | error => exact ⟨rfl, rfl⟩
  | opened | scheduled _ | reconnect _ => exact nomatch neutral

namespace WsRuntime

variable {config : WsConfig} {runtime after : WsRuntime}

/-- Since a socket has opened, the first few reconnects were announced; the client counts them,
or has spent all attempts, and this count is what handlers are told. The timers that wait are of
reconnects that were announced.
-/
structure BacksOff (config : WsConfig) (runtime : WsRuntime) : Prop where
  delays
    : ∃ n, n ≤ config.budget ∧ reconnectsSinceOpen runtime.notices = config.backOff n
  counted : runtime.reconnectAttempts = config.counts runtime.notices
  told
    : ∀ k attempt, runtime.notices[k]? = some (.reconnect attempt) →
        attempt = config.counts (runtime.notices.take k)
  timers : ∀ delay ∈ runtime.timers, .scheduled delay ∈ runtime.notices

-----------------------------------------------------------------------------------------
-- What the parts of a turn do
-----------------------------------------------------------------------------------------

/-- A change of the sockets, the state or the handlers. -/
theorem BacksOff.of_same (backs : BacksOff config runtime)
    (attempts : after.reconnectAttempts = runtime.reconnectAttempts)
    (notices : after.notices = runtime.notices) (timers : after.timers.Subset runtime.timers)
    : BacksOff config after := by
  obtain ⟨delays, counted, told, waiting⟩ := backs
  rw [← notices] at delays counted told waiting
  exact ⟨delays, attempts.trans counted, told, fun delay waits => waiting delay (timers waits)⟩

/-- What handlers are told stays right when there are more notices. -/
theorem BacksOff.told_snoc (backs : BacksOff config runtime) {notice : WsNotice}
    (right : ∀ attempt, notice = .reconnect attempt → attempt = config.counts runtime.notices)
    : ∀ k attempt, (runtime.notices ++ [notice])[k]? = some (.reconnect attempt) →
        attempt = config.counts ((runtime.notices ++ [notice]).take k) := by
  intro k attempt found
  rcases Nat.lt_or_ge k runtime.notices.length with early | late
  · rw [List.getElem?_append_left early] at found
    rw [List.take_append_of_le_length early.le]
    exact backs.told k attempt found
  · have last : k = runtime.notices.length := by
      have := (List.getElem?_eq_some_iff.mp found).1
      simp at this
      omega
    subst last
    rw [List.take_left]
    exact right attempt (by simpa using found)

theorem BacksOff.tell (backs : BacksOff config runtime) (notice : WsNotice)
    (neutral : notice.neutral = true)
    : BacksOff config (runtime.tell notice) := by
  obtain ⟨delays, disconnected⟩ := reconnectsSinceOpen_neutral neutral runtime.notices
  refine ⟨?_, ?_, backs.told_snoc (fun attempt same => by simp [same, WsNotice.neutral] at neutral),
    fun delay waits => List.mem_append_left _ (backs.timers delay waits)⟩
  · simpa only [WsRuntime.tell, delays] using backs.delays
  · simpa only [WsRuntime.tell, WsConfig.counts, delays, disconnected] using backs.counted

theorem BacksOff.disconnect (backs : BacksOff config runtime)
    : BacksOff config (runtime.act config .disconnect) := by
  have delays : reconnectsSinceOpen (runtime.notices ++ [.call .disconnect])
      = reconnectsSinceOpen runtime.notices := by
    simp [reconnectsSinceOpen]
  have disconnected : disconnectedSinceOpen (runtime.notices ++ [.call .disconnect]) = true := by
    simp [disconnectedSinceOpen]
  refine ⟨?_, ?_, backs.told_snoc nofun,
    fun delay waits => List.mem_append_left _ (backs.timers delay waits)⟩
  · rw [act_notices, delays]
    exact backs.delays
  · rw [act_notices, WsConfig.counts, delays, disconnected]
    by_cases reconnects : config.autoReconnect = true
    · simp [WsRuntime.act, WsRuntime.disconnect, reconnects]
    · have counted := backs.counted
      simp only [WsConfig.counts, reconnects, Bool.false_and, Bool.false_eq_true, if_false]
        at counted ⊢
      simpa [WsRuntime.act, WsRuntime.tell, WsRuntime.disconnect, reconnects] using counted

theorem connect_attempts
    : (runtime.connect config).reconnectAttempts = runtime.reconnectAttempts
      ∧ (runtime.connect config).timers = runtime.timers := by
  unfold connect
  split
  · exact ⟨rfl, rfl⟩
  · split <;> exact ⟨rfl, rfl⟩

theorem BacksOff.connect (backs : BacksOff config runtime)
    : BacksOff config (runtime.connect config) := by
  refine backs.of_same connect_attempts.1 connect_notices ?_
  rw [connect_attempts.2]
  exact List.Subset.refl _

theorem BacksOff.of_sent (backs : BacksOff config runtime) (sent : Sent runtime after)
    : BacksOff config after := by
  refine backs.of_same sent.reconnectAttempts sent.notices ?_
  rw [sent.timers]
  exact List.Subset.refl _

theorem BacksOff.act (backs : BacksOff config runtime) (call : WsCall)
    : BacksOff config (runtime.act config call) := by
  cases call with
  | connect => exact (backs.tell (.call .connect) rfl).connect
  | disconnect => exact backs.disconnect
  | subscribe kind =>
      have told := backs.tell (.call (.subscribe kind)) rfl
      simp only [WsRuntime.act]
      unfold subscribe
      extract_lets requestId id subscriptions renamed
      have same : BacksOff config renamed := told.of_same rfl rfl (List.Subset.refl _)
      exact same.of_sent (sendSubscriptionRequest_sent _ _ _)
  | unsubscribe id =>
      exact (backs.tell (.call (.unsubscribe id)) rfl).of_same rfl rfl (List.Subset.refl _)

theorem BacksOff.forEach (backs : BacksOff config runtime) (handlers : List HandlerCall)
    : BacksOff config (runtime.forEach config id handlers).2 :=
  forEach_invariant (fun _ kept => kept) (fun call _ _ kept => kept.act call) backs

theorem BacksOff.opened (backs : BacksOff config runtime)
    : BacksOff config
        ({ runtime with state := .opened, reconnectAttempts := 0 }.tell .opened) := by
  have delays : reconnectsSinceOpen (runtime.notices ++ [.opened]) = [] := by
    simp [reconnectsSinceOpen]
  have disconnected : disconnectedSinceOpen (runtime.notices ++ [.opened]) = false := by
    simp [disconnectedSinceOpen]
  refine ⟨⟨0, Nat.zero_le _, delays⟩, ?_, backs.told_snoc nofun,
    fun delay waits => List.mem_append_left _ (backs.timers delay waits)⟩
  simp [WsRuntime.tell, WsConfig.counts, delays, disconnected]

theorem BacksOff.onopen (backs : BacksOff config runtime) (i : Nat) (onOpen : List HandlerCall)
    : BacksOff config (runtime.onopen config i onOpen) := by
  have handled := backs.opened.forEach onOpen
  unfold WsRuntime.onopen
  dsimp only
  split
  · rename_i after thrown
    rw [thrown] at handled
    exact handled
  · rename_i after returned
    rw [returned] at handled
    have renewed := BacksOff.of_sent (handled.tell .renewed rfl)
      (resubscribe_sent after.client.subscriptions _)
    simp only [resubscribeAll]
    split
    · rename_i final answer
      rw [answer] at renewed
      exact renewed.of_same rfl rfl (List.Subset.refl _)
    · rename_i final answer
      rw [answer] at renewed
      exact renewed

/-- The next reconnect: the client has an attempt left, so it has not disconnected. -/
theorem BacksOff.scheduled (backs : BacksOff config runtime)
    (reconnects : config.autoReconnect = true)
    (more : runtime.reconnectAttempts < config.maxReconnectAttempts)
    : BacksOff config
        ({ runtime with
            reconnectAttempts := runtime.reconnectAttempts + 1, state := .reconnecting }.tell
          (.scheduled (config.reconnectDelay * 2 ^ runtime.reconnectAttempts))) := by
  obtain ⟨n, within, announced⟩ := backs.delays
  have connected : disconnectedSinceOpen runtime.notices = false := by
    by_contra disconnected
    have spent := backs.counted
    simp only [WsConfig.counts, reconnects, Bool.not_eq_false _ ▸ disconnected, Bool.and_self,
      if_true] at spent
    omega
  have count : runtime.reconnectAttempts = n := by
    rw [backs.counted, WsConfig.counts, connected, announced]
    simp
  set delay := config.reconnectDelay * 2 ^ runtime.reconnectAttempts with isDelay
  have delays : reconnectsSinceOpen (runtime.notices ++ [.scheduled delay])
      = config.backOff (n + 1) := by
    rw [config.backOff_succ, ← announced, isDelay, count]
    simp [reconnectsSinceOpen]
  have still : disconnectedSinceOpen (runtime.notices ++ [.scheduled delay]) = false := by
    rw [← connected]
    simp [disconnectedSinceOpen]
  refine ⟨⟨n + 1, ?_, delays⟩, ?_, backs.told_snoc nofun,
    fun delay waits => List.mem_append_left _ (backs.timers delay waits)⟩
  · rw [WsConfig.budget, if_pos reconnects]
    omega
  · simp [WsRuntime.tell, WsConfig.counts, delays, still, count]

/-- A handler is told the attempts that are counted when it is called. -/
theorem BacksOff.reconnect (backs : BacksOff config runtime)
    : BacksOff config (runtime.tell (.reconnect runtime.reconnectAttempts)) := by
  have delays : reconnectsSinceOpen
        (runtime.notices ++ [.reconnect runtime.reconnectAttempts])
      = reconnectsSinceOpen runtime.notices := by
    simp [reconnectsSinceOpen]
  have disconnected : disconnectedSinceOpen
        (runtime.notices ++ [.reconnect runtime.reconnectAttempts])
      = disconnectedSinceOpen runtime.notices := by
    simp [disconnectedSinceOpen]
  refine ⟨?_, ?_, backs.told_snoc (fun attempt same => ?_),
    fun delay waits => List.mem_append_left _ (backs.timers delay waits)⟩
  · simpa only [WsRuntime.tell, delays] using backs.delays
  · simpa only [WsRuntime.tell, WsConfig.counts, delays, disconnected] using backs.counted
  · obtain rfl := WsNotice.reconnect.inj same
    exact backs.counted

theorem BacksOff.scheduleReconnect (backs : BacksOff config runtime)
    (reconnects : config.autoReconnect = true)
    (more : runtime.reconnectAttempts < config.maxReconnectAttempts)
    (onReconnect : List HandlerCall)
    : BacksOff config (runtime.scheduleReconnect config onReconnect) := by
  have start := backs.scheduled reconnects more
  have both := @scheduleReconnect_invariant config runtime
    (fun after => BacksOff config after
      ∧ .scheduled (config.reconnectDelay * 2 ^ runtime.reconnectAttempts) ∈ after.notices)
    onReconnect ⟨start, by simp [WsRuntime.tell]⟩
    (fun _ kept => ⟨kept.1.reconnect, List.mem_append_left _ kept.2⟩)
    (fun call _ _ kept => by
      refine ⟨kept.1.act call, ?_⟩
      rw [act_notices]
      exact List.mem_append_left _ kept.2)
    (fun after kept => by
      refine ⟨⟨kept.1.delays, kept.1.counted, kept.1.told, fun other waits => ?_⟩, kept.2⟩
      rcases List.mem_append.mp waits with old | new
      · exact kept.1.timers other old
      · rw [List.mem_singleton.mp new]
        exact kept.2)
  exact both.1

theorem BacksOff.onclose (backs : BacksOff config runtime)
    (onClose onReconnect : List HandlerCall)
    : BacksOff config (runtime.onclose config onClose onReconnect) := by
  have closed : BacksOff config { runtime with state := .closed } :=
    backs.of_same rfl rfl (List.Subset.refl _)
  exact onclose_invariant (closed.tell .closed rfl) (fun call _ _ kept => kept.act call)
    (fun _ kept reconnects more => kept.scheduleReconnect reconnects more onReconnect)

theorem BacksOff.onerror (backs : BacksOff config runtime) (i : Nat)
    (onError : List HandlerCall)
    : BacksOff config (runtime.onerror config i onError) :=
  onerror_invariant (backs.tell .error rfl) (fun call _ _ kept => kept.act call)
    (fun _ kept _ => kept.of_same rfl rfl (List.Subset.refl _))

-----------------------------------------------------------------------------------------
-- Runs
-----------------------------------------------------------------------------------------

/-- What every turn does. -/
theorem BacksOff.step (backs : BacksOff config runtime) (turn : WsTurn)
    : BacksOff config (runtime.step config turn) := by
  cases turn with
  | call call => exact backs.act call
  | socketOpens i onOpen =>
      simp only [WsRuntime.step, socketOpens]
      have same : BacksOff config
          (runtime.onSocket i (fun socket => { socket with readyState := .opened })) :=
        backs.of_same rfl rfl (List.Subset.refl _)
      split
      · exact same.onopen i onOpen
      · exact backs
  | socketCloses i ending =>
      exact @socketCloses_invariant config _ (BacksOff config) (BacksOff config) _ _
        (fun _ => backs) (fun _ _ _ => backs.of_same rfl rfl (List.Subset.refl _))
        (fun _ kept => kept.onerror i ending.onError) (fun call _ _ kept => kept.act call)
        (fun _ kept => kept.onclose ending.onClose ending.onReconnect)
  | timerFires i =>
      simp only [WsRuntime.step, timerFires]
      have fewer : BacksOff config { runtime with timers := runtime.timers.eraseIdx i } :=
        backs.of_same rfl rfl (List.eraseIdx_sublist _ _).subset
      split
      · split
        · exact fewer.connect
        · exact fewer
      · exact backs

theorem backsOff_steps (turns : List WsTurn) (backs : BacksOff config runtime)
    : BacksOff config (steps config turns runtime) := by
  induction turns generalizing runtime with
  | nil => exact backs
  | cons turn rest ih => exact ih (backs.step turn)

/-- In every run, whatever the application and its handlers call and wherever they throw, the
reconnects since a socket has opened come after the first few delays of a back-off that doubles
each time, and are no more than are configured. The client counts them, and after a `disconnect`
all attempts; a handler is told what is counted when it is called. A timer waits only for a
reconnect that was announced.
-/
theorem reconnects_backOff (config : WsConfig) (turns : List WsTurn)
    : let runtime := run config turns
      (∃ n, n ≤ config.budget ∧ reconnectsSinceOpen runtime.notices = config.backOff n)
      ∧ runtime.reconnectAttempts = config.counts runtime.notices
      ∧ (∀ k attempt, runtime.notices[k]? = some (.reconnect attempt) →
          attempt = config.counts (runtime.notices.take k))
      ∧ ∀ delay ∈ runtime.timers, .scheduled delay ∈ runtime.notices := by
  intro runtime
  have start : BacksOff config new :=
    ⟨⟨0, Nat.zero_le _, rfl⟩, by simp [WsConfig.counts, new, reconnectsSinceOpen,
      disconnectedSinceOpen], nofun, nofun⟩
  have backs : BacksOff config runtime := backsOff_steps turns start
  exact ⟨backs.delays, backs.counted, backs.told, backs.timers⟩

-- Of two handlers that are told of a reconnect, the first one disconnects.
example
    : (run .defaultConfig
        [.call .connect, .socketOpens 0 [],
          .socketCloses 0
            { failed := false
              onError := []
              afterError := []
              onClose := []
              onReconnect :=
                [{ calls := [.disconnect], throws := false },
                  { calls := [], throws := false }] }]).notices
      = [.call .connect, .opened, .renewed, .closed, .scheduled 1000, .reconnect 1,
          .call .disconnect, .reconnect 5] := by
  decide

end WsRuntime

end VeloChain
