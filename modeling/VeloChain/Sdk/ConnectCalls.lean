import Mathlib.Data.List.Induction
import VeloChain.Sdk.SingleSocket

/-! How the calls of `connect` and `disconnect` end.
A `disconnect`, also from a handler, ends the connection and all reconnects for good. A
`connect` is never answered if it is given up by it while connecting, or if a handler throws
where it would have been answered; every other one is answered.
-/

namespace VeloChain

/-- A reconnect is announced. -/
def WsNotice.announces : WsNotice → Bool
  | .scheduled _ | .reconnect _ => true
  | .call _ | .opened | .renewed | .closed | .error => false

/-- The turn leaves a call of `connect` without its answer while the socket is connecting: the
application disconnects; a handler throws when the socket opens; or a handler throws or
disconnects when the socket fails.
-/
def WsTurn.Abandons (i : Nat) : WsTurn → Prop
  | .call made => made = .disconnect
  | .socketOpens j onOpen => j = i ∧ onOpen.any HandlerCall.throws = true
  | .socketCloses j ending =>
      j = i
      ∧ (ending.onError.any HandlerCall.throws = true
        ∨ .disconnect ∈ ending.onError.flatMap HandlerCall.calls)
  | .timerFires _ => False

namespace WsRuntime

variable {config : WsConfig} {runtime : WsRuntime}

-----------------------------------------------------------------------------------------
-- After a disconnect
-----------------------------------------------------------------------------------------

/-- A client that is left with sockets that are closing or closed, and will not reconnect. -/
structure Ended (config : WsConfig) (runtime : WsRuntime) : Prop where
  state : runtime.state = .closed
  sockets : ∀ i r, runtime.readyState i = some r → r = .closing ∨ r = .closed
  spent : config.autoReconnect → config.maxReconnectAttempts ≤ runtime.reconnectAttempts

theorem Ended.of_sent {after : WsRuntime} (ended : Ended config runtime)
    (sent : Sent runtime after)
    : Ended config after where
  state := sent.state.trans ended.state
  sockets i r found := ended.sockets i r ((sent.readyState i).symm.trans found)
  spent reconnects := sent.reconnectAttempts ▸ ended.spent reconnects

theorem disconnect_length
    : (runtime.disconnect config).sockets.length = runtime.sockets.length := by
  simp only [disconnect]
  split <;> simp

theorem disconnect_spent (reconnects : config.autoReconnect)
    : config.maxReconnectAttempts ≤ (runtime.disconnect config).reconnectAttempts := by
  simp [disconnect, reconnects]

theorem Single.ended_disconnect (single : Single config runtime)
    : Ended config (runtime.disconnect config) where
  state := rfl
  sockets i r found := by
    rw [readyState_disconnect] at found
    split at found
    · obtain ⟨before, -, becomes⟩ := Option.map_eq_some_iff.mp found
      split at becomes
      · exact .inr becomes.symm
      · exact .inl becomes.symm
    · rename_i other
      cases r with
      | connecting => exact absurd (single.connecting i found).2 other
      | opened => exact absurd (single.opened i found).2 other
      | closing => exact .inl rfl
      | closed => exact .inr rfl
  spent := disconnect_spent

theorem Gone.ended_disconnect (gone : Gone runtime)
    : Ended config (runtime.disconnect config) where
  state := rfl
  sockets i r found := by
    have closed : Gone (runtime.act config .disconnect) := gone.act nofun
    exact .inr (closed.closed i r found)
  spent := disconnect_spent

theorem Ended.act (ended : Ended config runtime) {call : WsCall} (other : call ≠ .connect)
    : Ended config (runtime.act config call) := by
  have told : Ended config (runtime.tell (.call call)) :=
    ⟨ended.state, ended.sockets, ended.spent⟩
  cases call with
  | connect => exact absurd rfl other
  | disconnect =>
      refine ⟨rfl, fun i r found => ?_, disconnect_spent⟩
      rw [WsRuntime.act, readyState_disconnect] at found
      split at found
      · obtain ⟨before, -, becomes⟩ := Option.map_eq_some_iff.mp found
        split at becomes
        · exact .inr becomes.symm
        · exact .inl becomes.symm
      · exact told.sockets i r found
  | subscribe kind =>
      simp only [WsRuntime.act]
      unfold subscribe
      extract_lets requestId id subscriptions renamed
      have same : Ended config renamed := ⟨ended.state, ended.sockets, ended.spent⟩
      exact same.of_sent (sendSubscriptionRequest_sent _ _ _)
  | unsubscribe id => exact ⟨ended.state, ended.sockets, ended.spent⟩

theorem connect_notices : (runtime.connect config).notices = runtime.notices := by
  unfold connect
  split
  · rfl
  · split <;> rfl

/-- A call is noted, and nothing else is. -/
theorem act_notices (call : WsCall)
    : (runtime.act config call).notices = runtime.notices ++ [.call call] := by
  cases call with
  | connect => exact connect_notices
  | disconnect => rfl
  | subscribe kind => exact (sendSubscriptionRequest_sent _ _ _).notices
  | unsubscribe id => rfl

theorem act_length {call : WsCall} (other : call ≠ .connect)
    : (runtime.act config call).sockets.length = runtime.sockets.length := by
  cases call with
  | connect => exact absurd rfl other
  | disconnect => exact disconnect_length
  | subscribe kind => exact (sendSubscriptionRequest_sent _ _ _).length
  | unsubscribe id => rfl

/-- The client has ended, and has made no socket and announced no reconnect meanwhile. -/
structure StaysEnded (config : WsConfig) (before after : WsRuntime) : Prop
    extends Ended config after where
  length : after.sockets.length = before.sockets.length
  silent
    : ∃ more, after.notices = before.notices ++ more
        ∧ ∀ notice ∈ more, notice.announces = false

section Ends

variable {before : WsRuntime}

theorem Ended.stays (ended : Ended config runtime) : StaysEnded config runtime runtime :=
  ⟨ended, rfl, [], by simp, nofun⟩

/-- What notes something harmless, and otherwise leaves an ended client with its sockets. -/
theorem StaysEnded.next {after : WsRuntime} (stays : StaysEnded config before runtime)
    (ended : Ended config after) (length : after.sockets.length = runtime.sockets.length)
    {more : List WsNotice} (notices : after.notices = runtime.notices ++ more)
    (silent : ∀ notice ∈ more, notice.announces = false)
    : StaysEnded config before after := by
  obtain ⟨earlier, grows, quiet⟩ := stays.silent
  refine ⟨ended, length.trans stays.length, earlier ++ more, ?_, fun notice member => ?_⟩
  · rw [notices, grows, List.append_assoc]
  · rcases List.mem_append.mp member with old | new
    · exact quiet notice old
    · exact silent notice new

theorem StaysEnded.act (stays : StaysEnded config before runtime) {call : WsCall}
    (other : call ≠ .connect)
    : StaysEnded config before (runtime.act config call) :=
  stays.next (stays.toEnded.act other) (act_length other) (act_notices call)
    (by simp [WsNotice.announces])

theorem StaysEnded.onerror (stays : StaysEnded config before runtime) (i : Nat)
    {onError : List HandlerCall} (noConnect : .connect ∉ onError.flatMap HandlerCall.calls)
    : StaysEnded config before (runtime.onerror config i onError) := by
  have told : StaysEnded config before (runtime.tell .error) :=
    stays.next ⟨stays.state, stays.sockets, stays.spent⟩ rfl rfl (by simp [WsNotice.announces])
  refine onerror_invariant told
    (fun _ member _ kept => kept.act (fun same => noConnect (same ▸ member))) ?_
  intro after kept connecting
  have both := kept.state.symm.trans connecting
  cases both

theorem StaysEnded.onclose (stays : StaysEnded config before runtime)
    {onClose onReconnect : List HandlerCall}
    (noConnect : .connect ∉ onClose.flatMap HandlerCall.calls)
    : StaysEnded config before (runtime.onclose config onClose onReconnect) := by
  have told : StaysEnded config before ({ runtime with state := .closed }.tell .closed) :=
    stays.next ⟨rfl, stays.sockets, stays.spent⟩ rfl rfl (by simp [WsNotice.announces])
  refine onclose_invariant told
    (fun _ member _ kept => kept.act (fun same => noConnect (same ▸ member))) ?_
  intro after kept reconnects more
  exact absurd more (not_lt.mpr (kept.spent reconnects))

/-- An ended client that loses what is left of a socket. -/
theorem StaysEnded.closes (stays : StaysEnded config before runtime) (i : Nat)
    {change : WsSocket → WsSocket} (closes : ∀ socket, (change socket).readyState = .closed)
    : StaysEnded config before (runtime.onSocket i change) := by
  have same : (runtime.onSocket i change).notices = runtime.notices ++ [] := by simp [onSocket]
  refine stays.next ⟨stays.state, fun j r found => ?_, stays.spent⟩ (onSocket_length _ _ _) same
    (fun notice isNew => absurd isNew List.not_mem_nil)
  rw [@readyState_onSocket change (fun _ => .closed) closes] at found
  split at found
  · obtain ⟨_, -, becomes⟩ := Option.map_eq_some_iff.mp found
    exact .inr becomes.symm
  · exact stays.sockets j r found

/-- Unless the application connects, a client that has ended makes no socket and announces no
reconnect.
-/
theorem Ended.step (ended : Ended config runtime) {turn : WsTurn} (other : turn ≠ .call .connect)
    (noConnect : .connect ∉ turn.inner)
    : StaysEnded config runtime (runtime.step config turn) := by
  cases turn with
  | call call => exact ended.stays.act (fun connects => other (connects ▸ rfl))
  | socketOpens i onOpen =>
      have idle : runtime.socketOpens config i onOpen = runtime :=
        socketOpens_idle (fun found => by
          rcases ended.sockets i _ found with closing | closed
          · exact nomatch closing
          · exact nomatch closed) onOpen
      rw [WsRuntime.step, idle]
      exact ended.stays
  | socketCloses i ending =>
      obtain ⟨errors, between, closes, -⟩ := noConnect_socketCloses noConnect
      exact socketCloses_invariant (fun _ => ended.stays)
        (fun _ _ _ => ended.stays.closes i (by intro socket; rfl))
        (fun _ kept => kept.onerror i errors)
        (fun _ member _ kept => kept.act (fun same => between (same ▸ member)))
        (fun _ kept => kept.onclose closes)
  | timerFires i =>
      simp only [WsRuntime.step, timerFires]
      split
      · rw [if_neg]
        · exact ⟨⟨ended.state, ended.sockets, ended.spent⟩, rfl, [], by simp, nofun⟩
        · exact fun waits => nomatch ended.state.symm.trans waits
      · exact ended.stays

theorem Ended.steps (ended : Ended config runtime) {turns : List WsTurn}
    (quiet : .call .connect ∉ turns) (patient : runtime.Patient config turns)
    : StaysEnded config runtime (WsRuntime.steps config turns runtime) := by
  induction turns generalizing runtime with
  | nil => exact ended.stays
  | cons turn rest ih =>
      obtain ⟨here, later⟩ := not_or.mp (mt List.mem_cons.mpr quiet)
      have first := ended.step (Ne.symm here) patient.2.1
      have next := ih first.toEnded later patient.2.2
      obtain ⟨more, notices, silent⟩ := next.silent
      exact first.next next.toEnded next.length notices silent

end Ends

/-- When `disconnect` was called after some notices, the client has ended. -/
def EndedSince (config : WsConfig) (before : List WsNotice) (runtime : WsRuntime) : Prop :=
  ∃ more, runtime.notices = before ++ more
    ∧ (.call .disconnect ∈ more → Ended config runtime)

section Since

variable {before : List WsNotice}

theorem endedSince_start : EndedSince config runtime.notices runtime :=
  ⟨[], by simp, nofun⟩

/-- What is noted is no call of `disconnect`, and what has ended stays so. -/
theorem EndedSince.next {after : WsRuntime} (since : EndedSince config before runtime)
    {more : List WsNotice} (notices : after.notices = runtime.notices ++ more)
    (other : .call .disconnect ∉ more) (keeps : Ended config runtime → Ended config after)
    : EndedSince config before after := by
  obtain ⟨earlier, grows, ends⟩ := since
  refine ⟨earlier ++ more, by rw [notices, grows, List.append_assoc], fun called => ?_⟩
  rcases List.mem_append.mp called with old | new
  · exact keeps (ends old)
  · exact absurd new other

theorem EndedSince.tell (since : EndedSince config before runtime) {notice : WsNotice}
    (other : .call .disconnect ≠ notice)
    : EndedSince config before (runtime.tell notice) :=
  since.next rfl (by simpa using other) (fun ended => ⟨ended.state, ended.sockets, ended.spent⟩)

theorem EndedSince.act (since : EndedSince config before runtime)
    (ends : Ended config ((runtime.tell (.call .disconnect)).disconnect config)) {call : WsCall}
    (other : call ≠ .connect)
    : EndedSince config before (runtime.act config call) := by
  by_cases disconnects : call = .disconnect
  · subst disconnects
    obtain ⟨earlier, grows, -⟩ := since
    refine ⟨earlier ++ [.call .disconnect], ?_, fun _ => ends⟩
    rw [act_notices, grows, List.append_assoc]
  · exact since.next (act_notices call) (by simpa using Ne.symm disconnects)
      (fun ended => ended.act other)

/-- The handlers of a socket that opens. -/
theorem Single.endedSince_opens (single : Single config runtime) (i : Nat)
    {onOpen : List HandlerCall} (noConnect : .connect ∉ onOpen.flatMap HandlerCall.calls)
    : EndedSince config runtime.notices (runtime.socketOpens config i onOpen) := by
  by_cases found : runtime.readyState i = some .connecting
  · have start : EndedSince config runtime.notices (runtime.opening i) :=
      ⟨[.opened], rfl, by simp⟩
    have handled
        : Single config ((runtime.opening i).forEach config id onOpen).2
          ∧ EndedSince config runtime.notices ((runtime.opening i).forEach config id onOpen).2 :=
      @forEach_invariant config _
        (fun after => Single config after ∧ EndedSince config runtime.notices after) _ _
        (fun _ kept => kept)
        (fun call member after kept => by
          have other : call ≠ .connect := fun same => noConnect (same ▸ member)
          exact ⟨kept.1.act call (fun same => absurd same other),
            kept.2.act (kept.1.tell _).ended_disconnect other⟩)
        ⟨single.opening found, start⟩
    obtain ⟨-, thrown⟩ | ⟨-, middle, sent, -, -, opens⟩ :=
      socketOpens_cases found rfl handled.1.ready
    · rw [thrown]
      exact handled.2
    · rw [opens]
      have renewed : _ = _ ++ [WsNotice.renewed] := sent.notices
      refine handled.2.next renewed (by simp) (fun ended => ?_)
      have told : Ended config (WsRuntime.tell .renewed _) :=
        ⟨ended.state, ended.sockets, ended.spent⟩
      have still := told.of_sent sent
      refine ⟨still.state, fun j r stage => ?_, still.spent⟩
      rw [readyState_onSocket_same (by intro socket; rfl)] at stage
      exact still.sockets j r stage
  · rw [socketOpens_idle found]
    exact endedSince_start

/-- A client whose sockets are gone, and that has ended if `disconnect` was called. -/
structure GoneSince (config : WsConfig) (before : List WsNotice) (runtime : WsRuntime) : Prop
    extends Gone runtime where
  ended : EndedSince config before runtime

theorem GoneSince.act (since : GoneSince config before runtime) {call : WsCall}
    (other : call ≠ .connect)
    : GoneSince config before (runtime.act config call) :=
  have told : Gone (runtime.tell (.call .disconnect)) := ⟨since.closed, since.exceptions⟩
  ⟨since.toGone.act other, since.ended.act told.ended_disconnect other⟩

theorem GoneSince.tell (since : GoneSince config before runtime) {notice : WsNotice}
    (other : .call .disconnect ≠ notice)
    : GoneSince config before (runtime.tell notice) :=
  ⟨⟨since.closed, since.exceptions⟩, since.ended.tell other⟩

theorem GoneSince.onerror (since : GoneSince config before runtime) (i : Nat)
    {onError : List HandlerCall} (noConnect : .connect ∉ onError.flatMap HandlerCall.calls)
    : GoneSince config before (runtime.onerror config i onError) := by
  refine onerror_invariant (since.tell nofun)
    (fun _ member _ kept => kept.act (fun same => noConnect (same ▸ member))) ?_
  intro after kept connecting
  refine ⟨⟨fun j r found => kept.closed j r ?_, kept.exceptions⟩, ?_⟩
  · rwa [readyState_onSocket_same (by intro socket; rfl)] at found
  · refine kept.ended.next (List.append_nil _).symm List.not_mem_nil (fun ended => ?_)
    have both := ended.state.symm.trans connecting
    cases both

theorem GoneSince.onclose (since : GoneSince config before runtime)
    {onClose onReconnect : List HandlerCall}
    (noConnect : .connect ∉ onClose.flatMap HandlerCall.calls)
    (noConnect' : .connect ∉ onReconnect.flatMap HandlerCall.calls)
    : GoneSince config before (runtime.onclose config onClose onReconnect) := by
  have told : GoneSince config before ({ runtime with state := .closed }.tell .closed) :=
    ⟨⟨since.closed, since.exceptions⟩, since.ended.next rfl (by simp)
      (fun ended => ⟨rfl, ended.sockets, ended.spent⟩)⟩
  refine onclose_invariant told
    (fun _ member _ kept => kept.act (fun same => noConnect (same ▸ member))) ?_
  intro after kept reconnects more
  -- An ended client has no attempt left, so this one was not disconnected.
  have alive : ¬ Ended config after := fun ended =>
    absurd more (not_lt.mpr (ended.spent reconnects))
  refine scheduleReconnect_invariant
    ⟨⟨kept.closed, kept.exceptions⟩,
      kept.ended.next rfl (by simp) (fun ended => absurd ended alive)⟩
    (fun _ held => held.tell nofun)
    (fun _ member _ held => held.act (fun same => noConnect' (same ▸ member))) ?_
  intro last held
  exact ⟨⟨held.closed, held.exceptions⟩,
    held.ended.next (List.append_nil _).symm List.not_mem_nil
      (fun ended => ⟨ended.state, ended.sockets, ended.spent⟩)⟩

/-- A turn of a patient application in which it, or a handler of it, disconnects ends the
client.
-/
theorem Single.endedSince (single : Single config runtime) (turn : WsTurn)
    (noConnect : .connect ∉ turn.inner)
    : EndedSince config runtime.notices (runtime.step config turn) := by
  cases turn with
  | call call =>
      by_cases connects : call = .connect
      · subst connects
        exact ⟨[.call .connect], act_notices .connect, by simp⟩
      · exact endedSince_start.act (single.tell _).ended_disconnect connects
  | socketOpens i onOpen => exact single.endedSince_opens i noConnect
  | socketCloses i ending =>
      obtain ⟨errors, between, closes, reconnects⟩ := noConnect_socketCloses noConnect
      exact @socketCloses_invariant config _ (GoneSince config runtime.notices) _ _ _
        (fun _ => endedSince_start)
        (fun _ found alive =>
          ⟨single.gone (by intro socket; rfl) found alive, [], by simp [onSocket], nofun⟩)
        (fun _ since => since.onerror i errors)
        (fun _ member _ since => since.act (fun same => between (same ▸ member)))
        (fun _ since => (since.onclose closes reconnects).ended)
  | timerFires i =>
      simp only [WsRuntime.step, WsRuntime.timerFires]
      split
      · split
        · exact ⟨[], by simp [connect_notices], nofun⟩
        · exact ⟨[], by simp, nofun⟩
      · exact endedSince_start

end Since

/-- The beginning of a patient run. -/
theorem Patient.of_append {earlier later : List WsTurn}
    (patient : runtime.Patient config (earlier ++ later))
    : runtime.Patient config earlier
      ∧ (WsRuntime.steps config earlier runtime).Patient config later := by
  induction earlier generalizing runtime with
  | nil => exact ⟨trivial, patient⟩
  | cons turn rest ih =>
      obtain ⟨first, second⟩ := ih patient.2.2
      exact ⟨⟨patient.1, patient.2.1, first⟩, second⟩

/-- After a turn in which a patient application disconnects, by itself or from a handler, and
until it connects again, the client stays closed whatever else happens: it makes no socket,
announces no reconnect, and the sockets that it has are closed or about to be.
-/
theorem disconnect_ends (config : WsConfig) (earlier : List WsTurn) (turn : WsTurn)
    (later : List WsTurn) (patient : new.Patient config (earlier ++ turn :: later))
    {notices : List WsNotice}
    (noted
      : ((run config earlier).step config turn).notices = (run config earlier).notices ++ notices)
    (called : .call .disconnect ∈ notices) (quiet : .call .connect ∉ later)
    : let before := (run config earlier).step config turn
      let after := run config (earlier ++ turn :: later)
      after.state = .closed
      ∧ after.sockets.length = before.sockets.length
      ∧ (∀ i r, after.readyState i = some r → r = .closing ∨ r = .closed)
      ∧ ∃ more, after.notices = before.notices ++ more
          ∧ ∀ notice ∈ more, notice.announces = false := by
  intro before after
  obtain ⟨begun, -, noConnect, rest⟩ := patient.of_append
  obtain ⟨more, grows, ends⟩ := begun.run.endedSince turn noConnect
  rw [List.append_cancel_left (grows.symm.trans noted)] at ends
  have runs : after = steps config later before := by
    rw [show after = _ from steps_append earlier _ _]
    rfl
  have stays := (ends called).steps quiet rest
  rw [runs]
  exact ⟨stays.state, stays.length, stays.sockets, stays.silent⟩

/-- A handler disconnects when it is told of a reconnect; the timer that is set all the same runs
out later.
-/
def quitTurns : List WsTurn := [.call .connect, .socketOpens 0 []]

/-- The loss of a socket, with that handler. -/
def quitTurn : WsTurn :=
  .socketCloses 0
    { failed := false
      onError := []
      afterError := []
      onClose := []
      onReconnect := [{ calls := [.disconnect], throws := false }] }

theorem disconnect_ends_quit
    : let before := (run .defaultConfig quitTurns).step .defaultConfig quitTurn
      let after := run .defaultConfig (quitTurns ++ quitTurn :: [.timerFires 0])
      after.state = .closed
      ∧ after.sockets.length = before.sockets.length
      ∧ (∀ i r, after.readyState i = some r → r = .closing ∨ r = .closed)
      ∧ ∃ more, after.notices = before.notices ++ more
          ∧ ∀ notice ∈ more, notice.announces = false :=
  @disconnect_ends .defaultConfig quitTurns quitTurn [.timerFires 0]
    ⟨fun _ => .inr (fun i r found => by simp [readyState, new] at found), by decide, nofun,
      by decide, nofun, by decide, nofun, by decide, trivial⟩
    [.closed, .scheduled 1000, .reconnect 1, .call .disconnect]
    (by decide) (by decide) (by decide)

-----------------------------------------------------------------------------------------
-- The answers to connects
-----------------------------------------------------------------------------------------

/-- A call of `connect` without an answer, whose socket is not connecting any more. -/
def Hung (i : Nat) (runtime : WsRuntime) : Prop :=
  runtime.promise i = some .pending ∧ runtime.readyState i ≠ some .connecting

/-- The calls whose sockets are connecting have no answer yet. -/
def Waiting (runtime : WsRuntime) : Prop :=
  ∀ i, runtime.readyState i = some .connecting → runtime.promise i = some .pending

/-- The calls that hang after a turn did so before, or their sockets were connecting and they
are lost.
-/
def HangsBy (runtime after : WsRuntime) (lost : Nat → Prop) : Prop :=
  after.Waiting
  ∧ ∀ i, after.Hung i ↔ runtime.Hung i ∨ (runtime.readyState i = some .connecting ∧ lost i)

/-- A turn that leaves the stages and the promises. -/
theorem HangsBy.of_same {after : WsRuntime} (waiting : runtime.Waiting)
    (stages : ∀ i, after.readyState i = runtime.readyState i)
    (answers : ∀ i, after.promise i = runtime.promise i)
    : HangsBy runtime after (fun _ => False) := by
  refine ⟨fun i found => ?_, fun i => ?_⟩
  · rw [answers]
    exact waiting i ((stages i).symm.trans found)
  · simp only [Hung, stages, answers, and_false, or_false]

/-- A turn that finds its socket gone, or never made. -/
theorem HangsBy.of_idle {lost : Nat → Prop} (waiting : runtime.Waiting)
    (idle : ∀ i, runtime.readyState i = some .connecting → ¬ lost i)
    : HangsBy runtime runtime lost := by
  refine ⟨waiting, fun i => ?_⟩
  constructor
  · exact .inl
  · rintro (hung | ⟨connecting, isLost⟩)
    · exact hung
    · exact absurd isLost (idle i connecting)

/-- A turn after which no socket is connecting, and that answers only those that were. -/
theorem HangsBy.of_none {after : WsRuntime} {lost : Nat → Prop}
    (none : ∀ i, after.readyState i ≠ some .connecting)
    (others
      : ∀ i, runtime.readyState i ≠ some .connecting → after.promise i = runtime.promise i)
    (answers
      : ∀ i, runtime.readyState i = some .connecting →
          (after.promise i = some .pending ↔ lost i))
    : HangsBy runtime after lost := by
  refine ⟨fun i found => absurd found (none i), fun i => ?_⟩
  rw [Hung, and_iff_left (none i)]
  by_cases found : runtime.readyState i = some .connecting
  · simp only [Hung, found, ne_eq, not_true_eq_false, and_false, false_or, true_and]
    exact answers i found
  · simp only [Hung, others i found, ne_eq, found, not_false_eq_true, and_true, false_and,
      or_false]

theorem promise_connect (valid : config.validUrl = true) (idle : runtime.state ≠ .opened)
    (i : Nat)
    : (runtime.connect config).promise i
      = if i = runtime.sockets.length then some .pending else runtime.promise i := by
  simp only [connect, if_neg idle, valid, ↓reduceIte, promise, List.getElem?_append]
  split
  · rename_i old
    rw [if_neg (by omega)]
  · rename_i new
    split
    · rename_i last
      simp [last, WsSocket.new]
    · rename_i other
      rw [List.getElem?_eq_none (by simp; omega), List.getElem?_eq_none (by omega)]

theorem Waiting.connect (waiting : runtime.Waiting)
    : HangsBy runtime (runtime.connect config) (fun _ => False) := by
  by_cases state : runtime.state = .opened
  · rw [WsRuntime.connect, if_pos state]
    exact .of_same waiting (fun _ => rfl) (fun _ => rfl)
  · by_cases valid : config.validUrl = true
    · have fresh : runtime.promise runtime.sockets.length = none := by
        simp [promise]
      refine ⟨fun i found => ?_, fun i => ?_⟩
      · rw [readyState_connect valid state] at found
        rw [promise_connect valid state]
        split at found
        · rw [if_pos ‹_›]
        · rw [if_neg ‹_›]
          exact waiting i found
      · simp only [Hung, readyState_connect valid state, promise_connect valid state,
          and_false, or_false]
        split
        · rename_i last
          simp [last, fresh]
        · rfl
    · have failed : runtime.connect config = { runtime with state := .closed } := by
        simp [WsRuntime.connect, if_neg state, valid]
      rw [failed]
      exact .of_same waiting (fun _ => rfl) (fun _ => rfl)

theorem promise_disconnect (i : Nat)
    : (runtime.disconnect config).promise i = runtime.promise i := by
  simp only [disconnect, promise]
  cases current : runtime.ws with
  | none => rfl
  | some j =>
      simp only [List.getElem?_modify]
      split
      · cases runtime.sockets[i]? with
        | none => rfl
        | some socket => cases stage : socket.readyState <;> simp [WsSocket.close, stage]
      · simp

/-- A call that does not connect answers no other call. -/
theorem promise_act {call : WsCall} (other : call ≠ .connect) (i : Nat)
    : (runtime.act config call).promise i = runtime.promise i := by
  cases call with
  | connect => exact absurd rfl other
  | disconnect => exact promise_disconnect i
  | subscribe kind => exact (sendSubscriptionRequest_sent _ _ _).promise i
  | unsubscribe id => rfl

theorem promise_acts {calls : List WsCall} (noConnect : .connect ∉ calls) (i : Nat)
    : (runtime.acts config calls).promise i = runtime.promise i :=
  @acts_invariant config _ (fun after => after.promise i = runtime.promise i) _
    (fun _ member _ same =>
      (promise_act (fun connects => noConnect (connects ▸ member)) i).trans same)
    rfl

theorem promise_forEach {handlers : List HandlerCall}
    (noConnect : .connect ∉ handlers.flatMap HandlerCall.calls) (i : Nat)
    : (runtime.forEach config id handlers).2.promise i = runtime.promise i :=
  @forEach_invariant config _ (fun after => after.promise i = runtime.promise i) _ _
    (fun _ same => same)
    (fun _ member _ same =>
      (promise_act (fun connects => noConnect (connects ▸ member)) i).trans same)
    rfl

theorem promise_onclose {onClose onReconnect : List HandlerCall}
    (noConnect : .connect ∉ onClose.flatMap HandlerCall.calls)
    (noConnect' : .connect ∉ onReconnect.flatMap HandlerCall.calls) (i : Nat)
    : (runtime.onclose config onClose onReconnect).promise i = runtime.promise i := by
  refine @onclose_invariant config _ (fun after => after.promise i = runtime.promise i) _ _ rfl
    (fun _ member _ same =>
      (promise_act (fun connects => noConnect (connects ▸ member)) i).trans same) ?_
  intro after same _ _
  exact @scheduleReconnect_invariant config _ (fun last => last.promise i = runtime.promise i) _
    same (fun _ held => held)
    (fun _ member _ held =>
      (promise_act (fun connects => noConnect' (connects ▸ member)) i).trans held)
    (fun _ held => held)

/-- Calls leave the state of the client unless one disconnects, which closes it for good. -/
theorem state_acts {calls : List WsCall} (noConnect : .connect ∉ calls)
    : (runtime.acts config calls).state
      = if .disconnect ∈ calls then .closed else runtime.state := by
  induction calls generalizing runtime with
  | nil => rfl
  | cons call rest ih =>
      obtain ⟨here, later⟩ := not_or.mp (mt List.mem_cons.mpr noConnect)
      have next : (runtime.act config call).state
          = if call = .disconnect then .closed else runtime.state := by
        cases call with
        | connect => exact absurd rfl here
        | disconnect => rfl
        | subscribe kind => exact (sendSubscriptionRequest_sent _ _ _).state
        | unsubscribe id => rfl
      rw [show runtime.acts config (call :: rest) = (runtime.act config call).acts config rest
        from rfl, ih later, next]
      simp only [List.mem_cons, eq_comm (a := WsCall.disconnect)]
      by_cases first : call = .disconnect <;> simp [first]

/-- Handlers that do not throw leave the state unless one disconnects. -/
theorem state_forEach {handlers : List HandlerCall}
    (noConnect : .connect ∉ handlers.flatMap HandlerCall.calls)
    (returns : handlers.any HandlerCall.throws = false)
    : (runtime.forEach config id handlers).2.state
      = if .disconnect ∈ handlers.flatMap HandlerCall.calls then .closed else runtime.state := by
  induction handlers generalizing runtime with
  | nil => rfl
  | cons handler rest ih =>
      rw [List.flatMap_cons, List.mem_append, not_or] at noConnect
      rw [List.any_cons, Bool.or_eq_false_iff] at returns
      simp only [forEach, id, returns.1, Bool.false_eq_true, if_false, ih noConnect.2 returns.2,
        state_acts noConnect.1, List.flatMap_cons, List.mem_append]
      by_cases here : .disconnect ∈ handler.calls <;> simp [here]

theorem Single.hangs_disconnect (single : Single config runtime) (waiting : runtime.Waiting)
    : HangsBy runtime (runtime.disconnect config) (fun _ => True) := by
  refine .of_none (fun i found => ?_) (fun i _ => promise_disconnect i) (fun i found => ?_)
  · rcases single.ended_disconnect.sockets i _ found with closing | closed
    · exact nomatch closing
    · exact nomatch closed
  · rw [promise_disconnect]
    exact ⟨fun _ => trivial, fun _ => waiting i found⟩

/-- A patient client has at most one connecting socket. -/
theorem Single.connecting_unique (single : Single config runtime) {i j : Nat}
    (found : runtime.readyState i = some .connecting)
    (found' : runtime.readyState j = some .connecting)
    : i = j := by
  have one := (single.connecting i found).2
  rw [(single.connecting j found').2, Option.some.injEq] at one
  exact one.symm

theorem Single.hangs_opens (single : Single config runtime) (waiting : runtime.Waiting) (i : Nat)
    {onOpen : List HandlerCall} (noConnect : .connect ∉ onOpen.flatMap HandlerCall.calls)
    : HangsBy runtime (runtime.socketOpens config i onOpen)
        (fun j => i = j ∧ onOpen.any HandlerCall.throws = true) := by
  by_cases found : runtime.readyState i = some .connecting
  · have handled := (single.opening found).forEach id (fun _ kept => kept) noConnect
    have state : ((runtime.opening i).forEach config id onOpen).2.state ≠ .connecting :=
      @forEach_invariant config _ (fun after => after.state ≠ .connecting) _ _
        (fun _ kept => kept)
        (fun call member after kept => by
          rcases @act_state config after call (fun same => noConnect (same ▸ member))
            with same | closed
          · rw [same]
            exact kept
          · simp [closed])
        nofun
    have answers : ∀ j,
        ((runtime.opening i).forEach config id onOpen).2.promise j = runtime.promise j :=
      fun j => (promise_forEach noConnect j).trans
        (promise_onSocket_same (by intro socket; rfl) i j runtime)
    have none : ∀ j,
        ((runtime.opening i).forEach config id onOpen).2.readyState j ≠ some .connecting :=
      fun j stage => state (handled.connecting j stage).1
    obtain ⟨throws, thrown⟩ | ⟨returns, middle, sent, -, -, opens⟩ :=
      socketOpens_cases found rfl handled.ready
    · rw [thrown]
      refine .of_none none (fun j _ => answers j) (fun j connecting => ?_)
      rw [answers, waiting j connecting]
      simp [throws, single.connecting_unique found connecting]
    · have settled : ∀ j, (middle.onSocket i (.settle .resolved)).promise j
          = if i = j then (middle.promise j).map (CallPromise.settle .resolved)
            else middle.promise j :=
        fun j => promise_onSocket (by intro socket; rfl) i j middle
      have kept : ∀ j, middle.promise j = runtime.promise j :=
        fun j => (sent.promise j).trans (answers j)
      rw [opens]
      refine .of_none (fun j => ?_) (fun j other => ?_) (fun j connecting => ?_)
      · rw [readyState_onSocket_same (by intro socket; rfl), sent.readyState]
        exact none j
      · have apart : i ≠ j := fun same => other (same ▸ found)
        rw [settled, if_neg apart, kept]
      · obtain rfl := single.connecting_unique found connecting
        rw [settled, if_pos rfl, kept, waiting i found]
        simp [returns, CallPromise.settle]
  · rw [socketOpens_idle found]
    exact .of_idle waiting (fun j connecting opens => found (opens.1 ▸ connecting))

/-- The error event answers the call of a connecting client, unless a handler throws or has
disconnected before.
-/
theorem promise_onerror (i : Nat) {onError : List HandlerCall}
    (noConnect : .connect ∉ onError.flatMap HandlerCall.calls) (j : Nat)
    : (runtime.onerror config i onError).promise j
      = if onError.any HandlerCall.throws = true
            ∨ .disconnect ∈ onError.flatMap HandlerCall.calls
            ∨ runtime.state ≠ .connecting then runtime.promise j
        else if i = j then (runtime.promise j).map (CallPromise.settle .rejected)
        else runtime.promise j := by
  have throws := @forEach_throws config id onError (runtime.tell .error)
  have answers : ((runtime.tell .error).forEach config id onError).2.promise j
      = runtime.promise j :=
    promise_forEach noConnect j
  have state := @state_forEach config (runtime.tell .error) onError noConnect
  unfold onerror
  split
  · rename_i after thrown
    rw [thrown] at throws answers
    have throws : onError.any HandlerCall.throws = true := by simpa using throws.symm
    rw [if_pos (.inl throws)]
    exact answers
  · rename_i after returned
    rw [returned] at throws answers state
    have returns : onError.any HandlerCall.throws = false := by simpa using throws.symm
    replace state := state returns
    dsimp only at state answers
    have settled : (after.onSocket i (.settle .rejected)).promise j
        = if i = j then (after.promise j).map (CallPromise.settle .rejected)
          else after.promise j :=
      promise_onSocket (by intro socket; rfl) i j after
    by_cases disconnects : .disconnect ∈ onError.flatMap HandlerCall.calls
    · rw [if_pos disconnects] at state
      rw [if_neg (by simp [state]), if_pos (.inr (.inl disconnects)), answers]
    · rw [if_neg disconnects] at state
      by_cases connecting : runtime.state = .connecting
      · have answered : ¬ (onError.any HandlerCall.throws = true
            ∨ .disconnect ∈ onError.flatMap HandlerCall.calls
            ∨ runtime.state ≠ .connecting) := by
          rintro (throws | disconnected | idle)
          · exact absurd throws (by simp [returns])
          · exact disconnects disconnected
          · exact idle connecting
        rw [if_neg answered, if_pos (state.trans connecting), settled, answers]
      · rw [if_neg (fun same => connecting (state.symm.trans same)),
          if_pos (.inr (.inr connecting)), answers]

/-- Only the last socket may be connecting, and it is the one that is not closed. -/
theorem Single.only_connecting (single : Single config runtime) {i j : Nat} {r : ReadyState}
    (found : runtime.readyState i = some r) (alive : r ≠ .closed)
    (connecting : runtime.readyState j = some .connecting)
    : i = j := by
  have one := single.latest i r found alive
  have two := single.latest j _ connecting (by decide)
  omega

section Fails

variable {i : Nat} {close : WsSocket → WsSocket} {onError : List HandlerCall}

/-- A socket that fails answers no call of another socket. -/
theorem Single.promise_fails (single : Single config runtime) {r : ReadyState}
    (found : runtime.readyState i = some r) (alive : r ≠ .closed)
    (keeps : ∀ socket, (close socket).promise = socket.promise)
    (noConnect : .connect ∉ onError.flatMap HandlerCall.calls) {j : Nat}
    (other : runtime.readyState j ≠ some .connecting)
    : ((runtime.onSocket i close).onerror config i onError).promise j = runtime.promise j := by
  rw [promise_onerror i noConnect, promise_onSocket_same keeps i j runtime]
  split
  · rfl
  · rename_i rejected
    have connects : runtime.state = .connecting := by
      by_contra idle
      exact rejected (.inr (.inr idle))
    obtain ⟨k, -, stage⟩ := single.state_connecting connects
    rw [if_neg]
    rintro rfl
    exact other (single.only_connecting found alive stage ▸ stage)

/-- A socket that fails while it connects leaves its call unanswered if a handler throws or
disconnects.
-/
theorem Single.pending_fails (single : Single config runtime) (waiting : runtime.Waiting)
    (connecting : runtime.readyState i = some .connecting)
    (keeps : ∀ socket, (close socket).promise = socket.promise)
    (noConnect : .connect ∉ onError.flatMap HandlerCall.calls)
    : ((runtime.onSocket i close).onerror config i onError).promise i = some .pending
      ↔ onError.any HandlerCall.throws = true
        ∨ .disconnect ∈ onError.flatMap HandlerCall.calls := by
  have state : (runtime.onSocket i close).state = .connecting :=
    (single.connecting i connecting).1
  rw [promise_onerror i noConnect, promise_onSocket_same keeps i i runtime, waiting i connecting]
  simp only [state, ne_eq, not_true_eq_false, or_false, if_true, Option.map_some,
    CallPromise.settle]
  split
  · rename_i abandons
    simp only [abandons]
  · rename_i rejected
    exact ⟨nofun, fun abandons => absurd abandons rejected⟩

end Fails

theorem Single.hangs_closes (single : Single config runtime) (waiting : runtime.Waiting)
    (i : Nat) {ending : SocketEnd} (noConnect : .connect ∉ (WsTurn.socketCloses i ending).inner)
    : HangsBy runtime (runtime.socketCloses config i ending)
        (fun j => i = j
          ∧ (ending.onError.any HandlerCall.throws = true
            ∨ .disconnect ∈ ending.onError.flatMap HandlerCall.calls)) := by
  obtain ⟨errors, between, closes, reconnects⟩ := noConnect_socketCloses noConnect
  unfold WsRuntime.socketCloses
  extract_lets close
  have keeps (socket : WsSocket) : (close socket).promise = socket.promise := rfl
  split
  · rename_i found
    refine .of_idle waiting ?_
    rintro j connecting ⟨rfl, -⟩
    have both := found.symm.trans connecting
    cases both
  · rename_i found
    refine .of_idle waiting ?_
    rintro j connecting ⟨rfl, -⟩
    have both := found.symm.trans connecting
    cases both
  · rename_i r alive found
    have found : runtime.readyState i = some r := found
    have gone : Gone (runtime.onSocket i close) :=
      single.gone (by intro socket; rfl) found alive
    by_cases failed : ending.failed ∨ r = .connecting
    · rw [if_pos failed]
      have told : Gone (((runtime.onSocket i close).onerror config i ending.onError).acts config
          ending.afterError) :=
        acts_invariant (fun call member _ kept => kept.act (fun same => between (same ▸ member)))
          (gone.onerror i errors)
      have left := @Gone.onclose config _ told _ _ closes reconnects
      have promises : ∀ j, ((((runtime.onSocket i close).onerror config i ending.onError).acts
            config ending.afterError).onclose config ending.onClose ending.onReconnect).promise j
          = ((runtime.onSocket i close).onerror config i ending.onError).promise j :=
        fun j => (promise_onclose closes reconnects j).trans (promise_acts between j)
      refine .of_none (fun j stage => nomatch left.closed j _ stage) (fun j other => ?_)
        (fun j connecting => ?_)
      · rw [promises]
        exact single.promise_fails found alive keeps errors other
      · obtain rfl := single.only_connecting found alive connecting
        rw [promises, single.pending_fails waiting connecting keeps errors, eq_self, true_and]
    · rw [if_neg failed]
      have left := @Gone.onclose config _ gone _ _ closes reconnects
      have answers (j : Nat) : (runtime.onSocket i close).promise j = runtime.promise j :=
        promise_onSocket_same keeps i j runtime
      refine .of_none (fun j stage => nomatch left.closed j _ stage)
        (fun j _ => (promise_onclose closes reconnects j).trans (answers j))
        (fun j connecting => ?_)
      obtain rfl := single.only_connecting found alive connecting
      rw [found, Option.some.injEq] at connecting
      exact absurd (.inr connecting) failed

/-- What one turn does to the calls that hang. -/
theorem Single.hangs_step (single : Single config runtime) (waiting : runtime.Waiting)
    (turn : WsTurn) (noConnect : .connect ∉ turn.inner)
    : HangsBy runtime (runtime.step config turn) (fun i => turn.Abandons i) := by
  cases turn with
  | call call =>
      have told : (runtime.tell (.call call)).Waiting := waiting
      cases call with
      | connect =>
          simp only [WsTurn.Abandons, reduceCtorEq]
          exact told.connect
      | disconnect =>
          simp only [WsTurn.Abandons]
          exact (single.tell (.call .disconnect)).hangs_disconnect told
      | subscribe kind =>
          simp only [WsTurn.Abandons, WsRuntime.step, WsRuntime.act, reduceCtorEq]
          unfold WsRuntime.subscribe
          extract_lets requestId id subscriptions renamed
          have sent := sendSubscriptionRequest_sent kind.method kind.subKey renamed
          exact .of_same waiting sent.readyState sent.promise
      | unsubscribe id =>
          simp only [WsTurn.Abandons, reduceCtorEq]
          exact .of_same waiting (fun _ => rfl) (fun _ => rfl)
  | socketOpens i onOpen => exact single.hangs_opens waiting i noConnect
  | socketCloses i ending => exact single.hangs_closes waiting i noConnect
  | timerFires i =>
      simp only [WsRuntime.step, WsRuntime.timerFires, WsTurn.Abandons]
      split
      · split
        · exact @Waiting.connect config { runtime with timers := runtime.timers.eraseIdx i }
            waiting
        · exact .of_same waiting (fun _ => rfl) (fun _ => rfl)
      · exact .of_same waiting (fun _ => rfl) (fun _ => rfl)

theorem waiting_new : new.Waiting := fun i found => by simp [readyState, new] at found

/-- The current socket of a client that says that it is connecting, is. -/
theorem Single.connecting_iff (single : Single config runtime) (i : Nat)
    : runtime.readyState i = some .connecting
      ↔ runtime.state = .connecting ∧ runtime.ws = some i := by
  constructor
  · exact single.connecting i
  · rintro ⟨state, current⟩
    obtain ⟨j, same, found⟩ := single.state_connecting state
    rw [current, Option.some.injEq] at same
    exact same ▸ found

/-- A call of `connect` of a patient application hangs, unanswered though its socket is not
connecting any more, exactly if it was abandoned while the client was connecting with this
socket: by a `disconnect`, by a handler that threw when the socket opened, or by one that threw
or disconnected when it failed.
-/
theorem connect_hangs_iff (config : WsConfig) (turns : List WsTurn)
    (patient : new.Patient config turns) (i : Nat)
    : ((run config turns).promise i = some .pending
        ∧ (run config turns).readyState i ≠ some .connecting)
      ↔ ∃ k turn, turns[k]? = some turn ∧ turn.Abandons i
          ∧ (run config (turns.take k)).state = .connecting
          ∧ (run config (turns.take k)).ws = some i := by
  suffices all : (run config turns).Waiting
      ∧ ∀ i, (run config turns).Hung i
          ↔ ∃ k turn, turns[k]? = some turn ∧ turn.Abandons i
              ∧ (run config (turns.take k)).state = .connecting
              ∧ (run config (turns.take k)).ws = some i from
    all.2 i
  induction turns using List.reverseRecOn with
  | nil => exact ⟨waiting_new, fun i => by simp [Hung, promise, run, WsRuntime.steps, new]⟩
  | append_singleton turns turn ih =>
      obtain ⟨begun, -, noConnect, -⟩ := patient.of_append
      obtain ⟨waiting, hung⟩ := ih begun
      obtain ⟨still, hangs⟩ := begun.run.hangs_step waiting turn noConnect
      rw [run_snoc]
      refine ⟨still, fun i => ?_⟩
      rw [hangs, hung, begun.run.connecting_iff]
      constructor
      · rintro (⟨k, past, took, abandons, connecting, current⟩ | ⟨⟨connecting, current⟩, abandons⟩)
        · have early : k < turns.length := (List.getElem?_eq_some_iff.mp took).1
          refine ⟨k, past, by rw [List.getElem?_append_left early, took], abandons, ?_⟩
          rw [List.take_append_of_le_length early.le]
          exact ⟨connecting, current⟩
        · refine ⟨turns.length, turn, by simp, abandons, ?_⟩
          rw [List.take_left]
          exact ⟨connecting, current⟩
      · rintro ⟨k, past, took, abandons, connecting, current⟩
        rcases lt_trichotomy k turns.length with early | rfl | late
        · rw [List.getElem?_append_left early] at took
          rw [List.take_append_of_le_length early.le] at connecting current
          exact .inl ⟨k, past, took, abandons, connecting, current⟩
        · rw [List.take_left] at connecting current
          simp only [List.getElem?_concat_length, Option.some.injEq] at took
          exact .inr ⟨⟨connecting, current⟩, took ▸ abandons⟩
        · rw [List.getElem?_eq_none (by simp; omega)] at took
          cases took

/-- A connection whose handler throws when it opens. -/
theorem connect_hangs_thrown
    : let turns : List WsTurn :=
        [.call .connect, .socketOpens 0 [{ calls := [.subscribe .gameTicks], throws := true }]]
      ((run .defaultConfig turns).promise 0 = some .pending
        ∧ (run .defaultConfig turns).readyState 0 ≠ some .connecting)
      ↔ ∃ k turn, turns[k]? = some turn ∧ turn.Abandons 0
          ∧ (run .defaultConfig (turns.take k)).state = .connecting
          ∧ (run .defaultConfig (turns.take k)).ws = some 0 := by
  intro turns
  exact connect_hangs_iff .defaultConfig turns
    ⟨fun _ => .inr (fun i r found => by simp [readyState, new] at found), by decide, nofun,
      by decide, trivial⟩ 0

end WsRuntime

end VeloChain
