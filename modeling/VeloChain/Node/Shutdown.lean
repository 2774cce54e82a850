import VeloChain.Lib.Interleaving

/-! The shutdown controller of a node.
Calls of its clones interleave at their accesses to what they share. A future of the notifier
completes once `notify_waiters` is called after the future was made, polled or not; a receiver
of the broadcast channel gets what is sent after it subscribed.
-/

namespace VeloChain

open Interleaving

/-- What the clones of a controller share: whether shutdown was initiated, how often the waiters
were notified, and how many messages were sent.
-/
structure ShutdownController where
  initiated : Bool
  notify : Nat
  tx : Nat
  deriving DecidableEq

/-- Create a new shutdown controller. -/
def ShutdownController.new : ShutdownController :=
  { initiated := false, notify := 0, tx := 0 }

/-- Where a call of the controller is. -/
inductive ShutdownCall
  /-- `shutdown` is called -/
  | shutdown
  /-- it was the first one, and is about to notify the waiters -/
  | notifying
  /-- it is about to send the message -/
  | sending
  | done
  /-- `wait_for_shutdown` is called -/
  | waiting
  /-- it has seen that shutdown is not initiated -/
  | unset
  /-- it awaits the future that was made after so many notifications -/
  | notified (notify : Nat)
  | returned
  /-- `subscribe` is called -/
  | subscribing
  /-- a receiver that has seen so many messages -/
  | receiving (seen : Nat)
  | received
  deriving DecidableEq

namespace ShutdownCall

/-- The next step of a call. -/
def act : ShutdownCall → ShutdownController → ShutdownCall × ShutdownController
  | .shutdown, controller =>
      -- the swap lets exactly one call through
      if controller.initiated then (.done, controller)
      else (.notifying, { controller with initiated := true })
  | .notifying, controller => (.sending, { controller with notify := controller.notify + 1 })
  -- without receivers the message is dropped, and no later receiver can tell
  | .sending, controller => (.done, { controller with tx := controller.tx + 1 })
  | .done, controller => (.done, controller)
  | .waiting, controller =>
      if controller.initiated then (.returned, controller) else (.unset, controller)
  | .unset, controller => (.notified controller.notify, controller)
  | .notified notify, controller =>
      if notify < controller.notify then (.returned, controller)
      else (.notified notify, controller)
  | .returned, controller => (.returned, controller)
  | .subscribing, controller => (.receiving controller.tx, controller)
  | .receiving seen, controller =>
      if seen < controller.tx then (.received, controller) else (.receiving seen, controller)
  | .received, controller => (.received, controller)

/-- A call that was made, and has not taken a step. -/
def Begins (call : ShutdownCall) : Prop :=
  call = .shutdown ∨ call = .waiting ∨ call = .subscribing

/-- A call of `wait_for_shutdown`. -/
def Waits : ShutdownCall → Prop
  | .waiting | .unset | .notified _ | .returned => True
  | _ => False

/-- A call of `subscribe`, with the receiver it returns. -/
def Receives : ShutdownCall → Prop
  | .subscribing | .receiving _ | .received => True
  | _ => False

theorem Waits.act {call : ShutdownCall} (waits : call.Waits) (controller : ShutdownController)
    : (call.act controller).1.Waits := by
  cases call with
  | waiting | notified =>
      simp only [ShutdownCall.act]
      split <;> trivial
  | unset | returned => trivial
  | _ => exact waits.elim

theorem Receives.act {call : ShutdownCall} (receives : call.Receives)
    (controller : ShutdownController)
    : (call.act controller).1.Receives := by
  cases call with
  | receiving =>
      simp only [ShutdownCall.act]
      split <;> trivial
  | subscribing | received => trivial
  | _ => exact receives.elim

/-- The call that notifies and sends. -/
def Signals (call : ShutdownCall) : Prop :=
  call = .notifying ∨ call = .sending

end ShutdownCall

namespace ShutdownController

variable {ι : Type} [DecidableEq ι]

/-- The calls that were made on a new controller. -/
def start (calls : ι → ShutdownCall) : Config ι ShutdownCall ShutdownController :=
  { tasks := calls, shared := .new }

/-- The calls after the steps of a schedule. -/
def run (calls : ι → ShutdownCall) (schedule : List ι)
    : Config ι ShutdownCall ShutdownController :=
  (start calls).run ShutdownCall.act schedule

/-- How far the first call of `shutdown` has come, and that no other one signals. -/
inductive Stage (config : Config ι ShutdownCall ShutdownController) : Prop
  | quiet (shared : config.shared = .new) (others : ∀ task, ¬ (config.tasks task).Signals)
  | notifying (caller : ι) (shared : config.shared = { initiated := true, notify := 0, tx := 0 })
      (calls : config.tasks caller = .notifying)
      (others : ∀ task, task ≠ caller → ¬ (config.tasks task).Signals)
  | sending (caller : ι) (shared : config.shared = { initiated := true, notify := 1, tx := 0 })
      (calls : config.tasks caller = .sending)
      (others : ∀ task, task ≠ caller → ¬ (config.tasks task).Signals)
  | sent (shared : config.shared = { initiated := true, notify := 1, tx := 1 })
      (others : ∀ task, ¬ (config.tasks task).Signals)

variable {config : Config ι ShutdownCall ShutdownController}

/-- A call that does not signal leaves alone what is shared, unless it is the first. -/
theorem act_of_not_signals {call : ShutdownCall} (not : ¬ call.Signals)
    {controller : ShutdownController}
    (late : call = .shutdown → controller.initiated = true)
    : (call.act controller).2 = controller ∧ ¬ (call.act controller).1.Signals := by
  cases call with
  | shutdown => simp [ShutdownCall.act, ShutdownCall.Signals, late rfl]
  | notifying => exact absurd (.inl rfl) not
  | sending => exact absurd (.inr rfl) not
  | waiting =>
      simp only [ShutdownCall.act]
      split <;> simp [ShutdownCall.Signals]
  | notified notify =>
      simp only [ShutdownCall.act]
      split <;> simp [ShutdownCall.Signals]
  | receiving seen =>
      simp only [ShutdownCall.act]
      split <;> simp [ShutdownCall.Signals]
  | done | unset | returned | subscribing | received =>
      simp [ShutdownCall.act, ShutdownCall.Signals]

/-- Other calls go on not signalling. -/
theorem others_step (among : ι → Prop) {task : ι}
    (others : ∀ other, among other → ¬ (config.tasks other).Signals)
    (moved : among task → ¬ ((config.tasks task).act config.shared).1.Signals)
    : ∀ other, among other
        → ¬ ((config.step ShutdownCall.act task).tasks other).Signals := by
  intro other isAmong
  by_cases same : other = task
  · subst same
    rw [Config.tasks_step_self]
    exact moved isAmong
  · rw [Config.tasks_step_of_ne same]
    exact others other isAmong

/-- Only the first call of `shutdown` signals, in this order. -/
theorem Stage.step (stage : Stage config) (task : ι)
    : Stage (config.step ShutdownCall.act task) := by
  cases stage with
  | quiet shared others =>
      by_cases first : config.tasks task = .shutdown
      · refine .notifying task ?_ ?_ ?_
        · simp [Config.step, first, shared, ShutdownCall.act, new]
        · simp [Config.step, first, shared, ShutdownCall.act, new]
        · exact others_step (· ≠ task) (fun other _ => others other) (absurd rfl)
      · obtain ⟨same, still⟩ := act_of_not_signals (others task) (fun call => absurd call first)
        exact .quiet (same.trans shared)
          (fun other => others_step (fun _ => True) (fun other _ => others other)
            (fun _ => still) other trivial)
  | notifying caller shared calls others =>
      by_cases same : task = caller
      · subst same
        refine .sending task ?_ ?_ ?_
        · simp [Config.step, calls, shared, ShutdownCall.act]
        · simp [Config.step, calls, ShutdownCall.act]
        · exact others_step _ others (absurd rfl)
      · have initiated : config.shared.initiated = true := by rw [shared]
        obtain ⟨kept, still⟩ := act_of_not_signals (others task same) (fun _ => initiated)
        exact .notifying caller (kept.trans shared)
          ((Config.tasks_step_of_ne (Ne.symm same) config).trans calls)
          (others_step _ others (fun _ => still))
  | sending caller shared calls others =>
      by_cases same : task = caller
      · subst same
        refine .sent ?_ (fun other => ?_)
        · simp [Config.step, calls, shared, ShutdownCall.act]
        · by_cases last : other = task
          · subst last
            simp [Config.step, calls, ShutdownCall.act, ShutdownCall.Signals]
          · exact others_step _ others (absurd rfl) other last
      · have initiated : config.shared.initiated = true := by rw [shared]
        obtain ⟨kept, still⟩ := act_of_not_signals (others task same) (fun _ => initiated)
        exact .sending caller (kept.trans shared)
          ((Config.tasks_step_of_ne (Ne.symm same) config).trans calls)
          (others_step _ others (fun _ => still))
  | sent shared others =>
      have initiated : config.shared.initiated = true := by rw [shared]
      obtain ⟨kept, still⟩ := act_of_not_signals (others task) (fun _ => initiated)
      exact .sent (kept.trans shared)
        (fun other => others_step (fun _ => True) (fun other _ => others other)
          (fun _ => still) other trivial)

/-- What a reached configuration satisfies: a future was made after notifications that were
given, and a receiver has seen messages that were sent.
-/
structure Reached (config : Config ι ShutdownCall ShutdownController) : Prop where
  stage : Stage config
  notified : ∀ task notify, config.tasks task = .notified notify → notify ≤ config.shared.notify
  seen : ∀ task seen, config.tasks task = .receiving seen → seen ≤ config.shared.tx

theorem shared_act_le (call : ShutdownCall) (controller : ShutdownController)
    : controller.notify ≤ (call.act controller).2.notify
      ∧ controller.tx ≤ (call.act controller).2.tx := by
  by_cases signals : call.Signals
  · rcases signals with rfl | rfl <;> simp [ShutdownCall.act]
  · by_cases first : call = .shutdown
    · subst first
      simp only [ShutdownCall.act]
      split <;> simp
    · rw [(act_of_not_signals signals (fun call => absurd call first)).1]
      exact ⟨Nat.le_refl _, Nat.le_refl _⟩

theorem notified_of_act {call : ShutdownCall} {controller : ShutdownController} {notify : Nat}
    (acts : (call.act controller).1 = .notified notify)
    : notify ≤ controller.notify ∨ call = .notified notify := by
  cases call with
  | unset =>
      cases acts
      exact .inl (Nat.le_refl _)
  | notified before =>
      simp only [ShutdownCall.act] at acts
      split at acts <;> cases acts
      exact .inr rfl
  | shutdown | waiting | receiving =>
      simp only [ShutdownCall.act] at acts
      split at acts <;> cases acts
  | _ => cases acts

theorem receiving_of_act {call : ShutdownCall} {controller : ShutdownController} {seen : Nat}
    (acts : (call.act controller).1 = .receiving seen)
    : seen ≤ controller.tx ∨ call = .receiving seen := by
  cases call with
  | subscribing =>
      cases acts
      exact .inl (Nat.le_refl _)
  | receiving before =>
      simp only [ShutdownCall.act] at acts
      split at acts <;> cases acts
      exact .inr rfl
  | shutdown | waiting | notified =>
      simp only [ShutdownCall.act] at acts
      split at acts <;> cases acts
  | _ => cases acts

theorem Reached.step (reached : Reached config) (task : ι)
    : Reached (config.step ShutdownCall.act task) := by
  obtain ⟨notifies, sends⟩ := shared_act_le (config.tasks task) config.shared
  refine ⟨reached.stage.step task, fun other notify calls => ?_, fun other seen calls => ?_⟩
  · by_cases same : other = task
    · subst same
      rw [Config.tasks_step_self] at calls
      rcases notified_of_act calls with made | before
      · exact Nat.le_trans made notifies
      · exact Nat.le_trans (reached.notified other notify before) notifies
    · rw [Config.tasks_step_of_ne same] at calls
      exact Nat.le_trans (reached.notified other notify calls) notifies
  · by_cases same : other = task
    · subst same
      rw [Config.tasks_step_self] at calls
      rcases receiving_of_act calls with made | before
      · exact Nat.le_trans made sends
      · exact Nat.le_trans (reached.seen other seen before) sends
    · rw [Config.tasks_step_of_ne same] at calls
      exact Nat.le_trans (reached.seen other seen calls) sends

omit [DecidableEq ι] in
/-- The waiters are notified at most once, after shutdown is initiated; then a message is sent. -/
theorem Stage.bounded (stage : Stage config)
    : config.shared.notify ≤ 1 ∧ config.shared.tx ≤ config.shared.notify
      ∧ (1 ≤ config.shared.notify → config.shared.initiated = true) := by
  cases stage with
  | quiet shared => simp [shared, new]
  | notifying caller shared => simp [shared]
  | sending caller shared => simp [shared]
  | sent shared => simp [shared]

theorem Stage.of_notifying (stage : Stage config) {caller : ι}
    (calls : config.tasks caller = .notifying)
    : config.shared = { initiated := true, notify := 0, tx := 0 } := by
  cases stage with
  | quiet shared others => exact absurd (.inl calls) (others caller)
  | notifying caller shared => exact shared
  | sending other shared sends others =>
      by_cases same : caller = other
      · subst same
        cases sends.symm.trans calls
      · exact absurd (.inl calls) (others caller same)
  | sent shared others => exact absurd (.inl calls) (others caller)

theorem Stage.of_sending (stage : Stage config) {caller : ι}
    (calls : config.tasks caller = .sending)
    : config.shared = { initiated := true, notify := 1, tx := 0 } := by
  cases stage with
  | quiet shared others => exact absurd (.inr calls) (others caller)
  | notifying other shared notifies others =>
      by_cases same : caller = other
      · subst same
        cases notifies.symm.trans calls
      · exact absurd (.inr calls) (others caller same)
  | sending caller shared => exact shared
  | sent shared others => exact absurd (.inr calls) (others caller)

-----------------------------------------------------------------------------------------
-- Who gets the signal
-----------------------------------------------------------------------------------------

/-- Once the waiters are notified, a call that is still to make its future never ends. -/
structure Lost (waiter : ι) (config : Config ι ShutdownCall ShutdownController) : Prop where
  reached : Reached config
  late : 1 ≤ config.shared.notify
  call : config.tasks waiter = .unset ∨ config.tasks waiter = .notified 1

theorem Lost.step {waiter : ι} (lost : Lost waiter config) (task : ι)
    : Lost waiter (config.step ShutdownCall.act task) := by
  refine ⟨lost.reached.step task, Nat.le_trans lost.late (shared_act_le _ _).1, ?_⟩
  by_cases same : waiter = task
  · subst same
    have once : config.shared.notify = 1 :=
      Nat.le_antisymm lost.reached.stage.bounded.1 lost.late
    rw [Config.tasks_step_self]
    rcases lost.call with call | call
    · simp [call, ShutdownCall.act, once]
    · simp [call, ShutdownCall.act, once]
  · rw [Config.tasks_step_of_ne same]
    exact lost.call

/-- Once the waiters are notified, a call that has made its future, or has yet to look whether
shutdown is initiated, ends with its next step.
-/
structure Awake (waiter : ι) (config : Config ι ShutdownCall ShutdownController) : Prop where
  reached : Reached config
  late : 1 ≤ config.shared.notify
  call
    : config.tasks waiter = .waiting ∨ config.tasks waiter = .notified 0
      ∨ config.tasks waiter = .returned

theorem Awake.step_other {waiter task : ι} (awake : Awake waiter config) (other : task ≠ waiter)
    : Awake waiter (config.step ShutdownCall.act task) := by
  refine ⟨awake.reached.step task, Nat.le_trans awake.late (shared_act_le _ _).1, ?_⟩
  rw [Config.tasks_step_of_ne (Ne.symm other)]
  exact awake.call

theorem Awake.returns {waiter : ι} (awake : Awake waiter config)
    : (config.step ShutdownCall.act waiter).tasks waiter = .returned := by
  have initiated := awake.reached.stage.bounded.2.2 awake.late
  have given : 0 < config.shared.notify := awake.late
  rw [Config.tasks_step_self]
  rcases awake.call with call | call | call
  · simp [call, ShutdownCall.act, initiated]
  · simp [call, ShutdownCall.act, given]
  · simp [call, ShutdownCall.act]

/-- A call that has returned stays so. -/
theorem returned_step {waiter : ι} (returned : config.tasks waiter = .returned) (task : ι)
    : (config.step ShutdownCall.act task).tasks waiter = .returned := by
  by_cases same : waiter = task
  · subst same
    rw [Config.tasks_step_self, returned]
    rfl
  · rwa [Config.tasks_step_of_ne same]

/-- Once the message is sent, a receiver that is still to be made never gets it. -/
structure Missed (receiver : ι) (config : Config ι ShutdownCall ShutdownController) : Prop where
  reached : Reached config
  late : 1 ≤ config.shared.tx
  call : config.tasks receiver = .subscribing ∨ config.tasks receiver = .receiving 1

theorem Missed.step {receiver : ι} (missed : Missed receiver config) (task : ι)
    : Missed receiver (config.step ShutdownCall.act task) := by
  refine ⟨missed.reached.step task, Nat.le_trans missed.late (shared_act_le _ _).2, ?_⟩
  by_cases same : receiver = task
  · subst same
    have bounded := missed.reached.stage.bounded
    have once : config.shared.tx = 1 :=
      Nat.le_antisymm (Nat.le_trans bounded.2.1 bounded.1) missed.late
    rw [Config.tasks_step_self]
    rcases missed.call with call | call
    · simp [call, ShutdownCall.act, once]
    · simp [call, ShutdownCall.act, once]
  · rw [Config.tasks_step_of_ne same]
    exact missed.call

/-- Once the message is sent, a receiver that was there before gets it next. -/
structure Holding (receiver : ι) (config : Config ι ShutdownCall ShutdownController) : Prop where
  late : 1 ≤ config.shared.tx
  call : config.tasks receiver = .receiving 0 ∨ config.tasks receiver = .received

theorem Holding.step_other {receiver task : ι} (holding : Holding receiver config)
    (other : task ≠ receiver)
    : Holding receiver (config.step ShutdownCall.act task) := by
  refine ⟨Nat.le_trans holding.late (shared_act_le _ _).2, ?_⟩
  rw [Config.tasks_step_of_ne (Ne.symm other)]
  exact holding.call

theorem Holding.receives {receiver : ι} (holding : Holding receiver config)
    : (config.step ShutdownCall.act receiver).tasks receiver = .received := by
  have sent : 0 < config.shared.tx := holding.late
  rw [Config.tasks_step_self]
  rcases holding.call with call | call
  · simp [call, ShutdownCall.act, sent]
  · simp [call, ShutdownCall.act]

theorem received_step {receiver : ι} (received : config.tasks receiver = .received) (task : ι)
    : (config.step ShutdownCall.act task).tasks receiver = .received := by
  by_cases same : receiver = task
  · subst same
    rw [Config.tasks_step_self, received]
    rfl
  · rwa [Config.tasks_step_of_ne same]

variable {calls : ι → ShutdownCall}

theorem reached_run (begins : ∀ task, (calls task).Begins) (schedule : List ι)
    : Reached (run calls schedule) := by
  refine Config.run_stays Reached (fun _ task reached => reached.step task) schedule ?_
  refine ⟨.quiet rfl fun task => ?_, fun task notify call => ?_, fun task seen call => ?_⟩
  all_goals
    have begin : (calls task).Begins := begins task
  · rcases begin with call | call | call <;> simp [start, call, ShutdownCall.Signals]
  · rcases begin with begun | begun | begun <;> cases begun.symm.trans call
  · rcases begin with begun | begun | begun <;> cases begun.symm.trans call

theorem waits_run {waiter : ι} (waits : (calls waiter).Waits) (schedule : List ι)
    : ((run calls schedule).tasks waiter).Waits := by
  refine Config.run_stays (fun config => ShutdownCall.Waits (config.tasks waiter)) ?_ schedule waits
  intro config task waits
  by_cases same : waiter = task
  · subst same
    rw [Config.tasks_step_self]
    exact waits.act config.shared
  · rwa [Config.tasks_step_of_ne same]

theorem receives_run {receiver : ι} (receives : (calls receiver).Receives) (schedule : List ι)
    : ((run calls schedule).tasks receiver).Receives := by
  refine Config.run_stays (fun config => ShutdownCall.Receives (config.tasks receiver)) ?_
    schedule receives
  intro config task receives
  by_cases same : receiver = task
  · subst same
    rw [Config.tasks_step_self]
    exact receives.act config.shared
  · rwa [Config.tasks_step_of_ne same]

theorem run_append (before later : List ι) (task : ι)
    : run calls (before ++ task :: later)
      = ((run calls before).step ShutdownCall.act task).run ShutdownCall.act later := by
  simp only [run, Config.run, List.foldl_append, List.foldl_cons]

/-- A waiting call returns after the notification, except when it is given just after the call
has looked whether shutdown is initiated, and before it has made its future.
-/
theorem returned_iff (begins : ∀ task, (calls task).Begins) {before later : List ι}
    {caller waiter : ι} (notifies : (run calls before).tasks caller = .notifying)
    (waits : calls waiter = .waiting) (member : waiter ∈ later)
    : (run calls (before ++ caller :: later)).tasks waiter = .returned
      ↔ (run calls before).tasks waiter ≠ .unset := by
  have reached := reached_run begins before
  have isWaiting : ((run calls before).tasks waiter).Waits :=
    waits_run (by rw [waits]; trivial) before
  have other : waiter ≠ caller := by
    rintro rfl
    rw [notifies] at isWaiting
    exact isWaiting
  have shared := reached.stage.of_notifying notifies
  have late : 1 ≤ ((run calls before).step ShutdownCall.act caller).shared.notify := by
    simp [Config.step, notifies, shared, ShutdownCall.act]
  rw [run_append]
  constructor
  · intro returned unset
    have lost : Lost waiter ((run calls before).step ShutdownCall.act caller) :=
      ⟨reached.step caller, late, .inl ((Config.tasks_step_of_ne other _).trans unset)⟩
    rcases (Config.run_stays (Lost waiter) (fun _ task lost => lost.step task) later lost).call
      with call | call <;> cases call.symm.trans returned
  · intro passed
    have awake : Awake waiter ((run calls before).step ShutdownCall.act caller) := by
      refine ⟨reached.step caller, late, ?_⟩
      rw [Config.tasks_step_of_ne other]
      cases call : (run calls before).tasks waiter with
      | waiting => exact .inl rfl
      | unset => exact absurd call passed
      | notified notify =>
          have made := reached.notified waiter notify call
          rw [shared] at made
          rw [Nat.le_zero.mp made]
          exact .inr (.inl rfl)
      | returned => exact .inr (.inr rfl)
      | _ =>
          rw [call] at isWaiting
          exact isWaiting.elim
    exact Config.run_of_mem (Awake waiter) (fun config => config.tasks waiter = .returned)
      (fun _ _ other awake => awake.step_other other) (fun _ awake => awake.returns)
      (fun _ task returned => returned_step returned task) member awake

/-- A receiver gets the message exactly if it was made before the message is sent. -/
theorem received_iff (begins : ∀ task, (calls task).Begins) {before later : List ι}
    {caller receiver : ι} (sends : (run calls before).tasks caller = .sending)
    (subscribes : calls receiver = .subscribing) (member : receiver ∈ later)
    : (run calls (before ++ caller :: later)).tasks receiver = .received
      ↔ (run calls before).tasks receiver ≠ .subscribing := by
  have reached := reached_run begins before
  have isReceiver : ((run calls before).tasks receiver).Receives :=
    receives_run (by rw [subscribes]; trivial) before
  have other : receiver ≠ caller := by
    rintro rfl
    rw [sends] at isReceiver
    exact isReceiver
  have shared := reached.stage.of_sending sends
  have late : 1 ≤ ((run calls before).step ShutdownCall.act caller).shared.tx := by
    simp [Config.step, sends, shared, ShutdownCall.act]
  rw [run_append]
  constructor
  · intro received subscribing
    have missed : Missed receiver ((run calls before).step ShutdownCall.act caller) :=
      ⟨reached.step caller, late, .inl ((Config.tasks_step_of_ne other _).trans subscribing)⟩
    rcases (Config.run_stays (Missed receiver) (fun _ task missed => missed.step task) later
        missed).call
      with call | call <;> cases call.symm.trans received
  · intro made
    have holding : Holding receiver ((run calls before).step ShutdownCall.act caller) := by
      refine ⟨late, ?_⟩
      rw [Config.tasks_step_of_ne other]
      cases call : (run calls before).tasks receiver with
      | subscribing => exact absurd call made
      | receiving seen =>
          have sent := reached.seen receiver seen call
          rw [shared] at sent
          rw [Nat.le_zero.mp sent]
          exact .inl rfl
      | received => exact .inr rfl
      | _ =>
          rw [call] at isReceiver
          exact isReceiver.elim
    exact Config.run_of_mem (Holding receiver) (fun config => config.tasks receiver = .received)
      (fun _ _ other holding => holding.step_other other) (fun _ holding => holding.receives)
      (fun _ task received => received_step received task) member holding

/-- In every interleaving of calls of a controller, the waiters are notified at most once and
the message is sent at most once, after that. A waiting call that goes on returns after the
notification, unless that was given after the call looked whether shutdown is initiated and
before it made its future: then it never returns. A receiver gets the message, unless it is made
after the message was sent: then it never does.
-/
theorem signal_reaches (calls : ι → ShutdownCall) (begins : ∀ task, (calls task).Begins)
    (before : List ι)
    : ((run calls before).shared.notify ≤ 1
        ∧ (run calls before).shared.tx ≤ (run calls before).shared.notify)
      ∧ (∀ caller waiter later,
          (run calls before).tasks caller = .notifying → calls waiter = .waiting →
            waiter ∈ later →
            ((run calls (before ++ caller :: later)).tasks waiter = .returned
              ↔ (run calls before).tasks waiter ≠ .unset))
      ∧ (∀ caller receiver later,
          (run calls before).tasks caller = .sending → calls receiver = .subscribing →
            receiver ∈ later →
            ((run calls (before ++ caller :: later)).tasks receiver = .received
              ↔ (run calls before).tasks receiver ≠ .subscribing)) :=
  ⟨⟨(reached_run begins before).stage.bounded.1, (reached_run begins before).stage.bounded.2.1⟩,
    fun _ _ _ notifies waits member => returned_iff begins notifies waits member,
    fun _ _ _ sends subscribes member => received_iff begins sends subscribes member⟩

/-- A node that looks whether shutdown is initiated just before a signal arrives. -/
theorem signal_reaches_lost
    : let calls : Bool → ShutdownCall := fun task => if task then .shutdown else .waiting
      let before := [false, true]
      ((run calls before).shared.notify ≤ 1
        ∧ (run calls before).shared.tx ≤ (run calls before).shared.notify)
      ∧ (run calls before).tasks true = .notifying
      ∧ (run calls before).tasks false = .unset
      ∧ ∀ later, false ∈ later →
          (run calls (before ++ true :: later)).tasks false ≠ .returned := by
  intro calls before
  have begins : ∀ task, (calls task).Begins := by
    intro task
    cases task
    · exact .inr (.inl rfl)
    · exact .inl rfl
  have notifies : (run calls before).tasks true = .notifying := by decide
  have unset : (run calls before).tasks false = .unset := by decide
  obtain ⟨once, returns, -⟩ := signal_reaches calls begins before
  exact ⟨once, notifies, unset, fun later member returned =>
    (returns true false later notifies rfl member).mp returned unset⟩

end ShutdownController

end VeloChain
