import VeloChain.Lib.RequestTable
import VeloChain.Network.HeaderDownload
import VeloChain.Network.SyncCalls

/-! What each operation of the sync engine does to the pending requests.
Polls enter requests under the next numbers, answers take them off, and a tick enters those that
wait for too long again or gives them up. Everything else leaves them alone.
-/

namespace VeloChain

open RequestTable

namespace SyncEngine

variable {engine : SyncEngine}

/-- The call of an operation. -/
def turn (engine : SyncEngine) (op : SyncOp) : ReturnedCall SyncEngine SyncOp SyncReply :=
  { before := engine, op, reply := engine.reply op, after := engine.run op }

theorem eq_turn {turn : ReturnedCall SyncEngine SyncOp SyncReply}
    (returns : call turn.op turn.before = some (turn.reply, turn.after))
    : turn = turn.before.turn turn.op := by
  obtain ⟨sameReply, sameAfter⟩ := turn_of_call returns
  obtain ⟨before, op, reply, after⟩ := turn
  simp only at sameReply sameAfter
  rw [sameReply, sameAfter]
  rfl

/-- Nothing is pending that was not pending before, and no number has been used. -/
structure KeepsPending (before after : SyncEngine) : Prop where
  config : after.config = before.config
  nextRequestId : after.nextRequestId = before.nextRequestId
  headers
    : ∀ id request, after.headerRequests.lookup id = some request →
        before.headerRequests.lookup id = some request
  bodies
    : ∀ id request, after.bodyRequests.lookup id = some request →
        before.bodyRequests.lookup id = some request

theorem KeepsPending.refl (engine : SyncEngine) : KeepsPending engine engine :=
  ⟨rfl, rfl, fun _ _ => id, fun _ _ => id⟩

/-- Beside polls and ticks no operation adds a request, by cases on the operation. -/
theorem keepsPending_run {op : SyncOp} (noHeaderPoll : op ≠ .pollHeaderRequests)
    (noBodyPoll : op ≠ .pollBodyRequests) (noTick : ∀ order, op ≠ .tick order)
    : KeepsPending engine (engine.run op) := by
  cases op with
  | banPeer peerId => exact ⟨rfl, rfl, fun _ _ => id, fun _ _ => id⟩
  | onPeerStatus peerId bestBlock bestHash =>
      change KeepsPending engine (engine.onPeerStatus peerId bestBlock bestHash)
      rcases engine.onPeerStatus_cases peerId bestBlock bestHash with kept | ⟨_, _, aims⟩
      · rw [kept]
        exact .refl engine
      · rw [aims]
        exact ⟨rfl, rfl, fun _ _ => id, fun _ _ => id⟩
  | updateLocalHead newHead =>
      obtain ⟨_, _, same, _⟩ := engine.updateLocalHead_cases newHead
      change KeepsPending engine (engine.updateLocalHead newHead)
      rw [same]
      exact ⟨rfl, rfl, fun _ _ => id, fun _ _ => id⟩
  | pollHeaderRequests => exact absurd rfl noHeaderPoll
  | onHeadersReceived headers =>
      cases headers with
      | nil => exact .refl engine
      | cons first rest =>
          refine ⟨rfl, rfl, fun id request found => ?_, fun _ _ => id⟩
          change (engine.headerRequests.retain _).lookup id = _ at found
          rw [FinMap.lookup_retain] at found
          exact (Option.filter_eq_some_iff.mp found).1
  | pollBodyRequests => exact absurd rfl noBodyPoll
  | onBodiesReceived hashes =>
      refine ⟨rfl, rfl, fun _ _ => id, fun id request found => ?_⟩
      change (engine.bodyRequests.retain _).lookup id = _ at found
      rw [FinMap.lookup_retain] at found
      exact (Option.filter_eq_some_iff.mp found).1
  | verifyChain =>
      change KeepsPending engine engine.verifyChain.2
      rcases engine.verifyChain_cases with ⟨_, _, verified⟩ | ⟨_, kept⟩
      · rw [verified]
        exact ⟨rfl, rfl, fun _ _ => id, fun _ _ => id⟩
      · rw [kept]
        exact .refl engine
  | tick order => exact absurd rfl (noTick order)
  | drainImportReady => exact ⟨rfl, rfl, fun _ _ => id, fun _ _ => id⟩

-----------------------------------------------------------------------------------------
-- Header polls
-----------------------------------------------------------------------------------------

/-- The entry with which a poll reports a header request. -/
abbrev HeaderEntry := Nat × Nat × Nat × Option String

/-- What holds with nothing issued and is kept by each request holds of the requests of a loop
and the engine they lead to, by induction on the turns.
-/
theorem issueHeaderRequests_induction {target : SyncTarget}
    {inv : List HeaderEntry → Nat → SyncEngine → Prop}
    (step
      : ∀ issued start engine, inv issued start engine → start ≤ target.bestBlock →
          inv
            (issued
              ++ [(engine.nextRequestId, start, (nextHeaderRequest target start engine).count,
                  some target.peerId)])
            (word (start + (nextHeaderRequest target start engine).count))
            (engine.withHeaderRequest (nextHeaderRequest target start engine)))
    (more : Nat) {issued : List HeaderEntry} {start : Nat} {engine : SyncEngine}
    (begins : inv issued start engine)
    : ∃ stop,
        inv (issued ++ (issueHeaderRequests target more start engine).1) stop
          (issueHeaderRequests target more start engine).2 := by
  induction more generalizing issued start engine with
  | zero =>
      refine ⟨start, ?_⟩
      rw [issueHeaderRequests, List.append_nil]
      exact begins
  | succ more ih =>
      by_cases below : start ≤ target.bestBlock
      · obtain ⟨stop, ends⟩ := ih (step issued start engine begins below)
        rw [List.append_assoc, List.singleton_append] at ends
        rw [issueHeaderRequests, if_neg (Nat.not_lt.mpr below)]
        exact ⟨stop, ends⟩
      · refine ⟨start, ?_⟩
        rw [issueHeaderRequests, if_pos (Nat.lt_of_not_le below), List.append_nil]
        exact begins

theorem length_issueHeaderRequests (target : SyncTarget) (more start : Nat)
    (engine : SyncEngine)
    : (issueHeaderRequests target more start engine).1.length ≤ more := by
  induction more generalizing start engine with
  | zero => exact Nat.le_refl _
  | succ more ih =>
      unfold issueHeaderRequests
      split
      next => exact Nat.zero_le _
      next => exact Nat.succ_le_succ (ih _ _)

/-- A poll issues nothing, or the requests of a loop from its start on. -/
theorem pollHeaderRequests_cases (engine : SyncEngine)
    : engine.pollHeaderRequests = ([], engine)
      ∨ ∃ target,
          engine.target = some target
          ∧ engine.state = .downloadingHeaders
          ∧ engine.pollHeaderRequests
            = issueHeaderRequests target
                (engine.config.maxHeaderRequests - engine.headerRequests.keys.card)
                engine.pollStart engine := by
  unfold pollHeaderRequests
  split
  next => exact Or.inl rfl
  next phase =>
    cases engine.target with
    | none => exact Or.inl rfl
    | some target => exact Or.inr ⟨target, rfl, not_not.mp phase, rfl⟩

-----------------------------------------------------------------------------------------
-- Body polls
-----------------------------------------------------------------------------------------

/-- The entry with which a poll reports a body request. -/
abbrev BodyEntry := Nat × List B256 × Option String

/-- Cutting a list that fits a number of pieces makes at most as many. -/
theorem length_chunks_le {α : Type} {size count : Nat} (fuel : Nat) {items : List α}
    (fits : items.length ≤ count * size)
    : (chunks size fuel items).length ≤ count := by
  induction fuel generalizing count items with
  | zero => cases items <;> exact Nat.zero_le _
  | succ fuel ih =>
      cases items with
      | nil => exact Nat.zero_le _
      | cons item rest =>
          cases count with
          | zero => simp at fits
          | succ count =>
              change (chunks size fuel ((item :: rest).drop size)).length + 1 ≤ count + 1
              refine Nat.succ_le_succ (ih ?_)
              rw [List.length_drop]
              rw [Nat.succ_mul] at fits
              omega

/-- A law of engines that is kept by each request of a poll is kept by the poll. -/
theorem pollBodyRequests_invariant {law : List BodyEntry × SyncEngine → Prop}
    (step : ∀ issued hashes, law issued → law (issueBodyRequest issued hashes))
    (begins : law ([], engine))
    : law engine.pollBodyRequests := by
  have kept (pieces : List (List B256)) (issued : List BodyEntry × SyncEngine)
      (held : law issued)
      : law (pieces.foldl issueBodyRequest issued) := by
    induction pieces generalizing issued with
    | nil => exact held
    | cons hashes rest ih => exact ih _ (step issued hashes held)
  unfold pollBodyRequests
  split
  next => exact begins
  next => exact kept _ _ begins

/-- A poll for bodies issues as many requests as there is room for. -/
theorem length_pollBodyRequests (engine : SyncEngine)
    : engine.pollBodyRequests.1.length
      ≤ engine.config.maxBodyRequests - engine.bodyRequests.keys.card := by
  have grows (pieces : List (List B256)) (issued : List BodyEntry × SyncEngine)
      : (pieces.foldl issueBodyRequest issued).1.length = issued.1.length + pieces.length := by
    induction pieces generalizing issued with
    | nil => rfl
    | cons hashes rest ih =>
        have first : (issueBodyRequest issued hashes).1.length = issued.1.length + 1 :=
          List.length_append
        rw [List.foldl_cons, ih, first, List.length_cons]
        omega
  unfold pollBodyRequests
  split
  next => exact Nat.zero_le _
  next =>
    rw [grows, List.length_nil, Nat.zero_add]
    refine length_chunks_le _ (Nat.le_trans (List.length_take_le _ _) (Nat.mod_le _ _))

-----------------------------------------------------------------------------------------
-- Ticks
-----------------------------------------------------------------------------------------

/-- A header request as the next tick enters it again, if that happens at all. -/
def headerAgain (engine : SyncEngine) (request : HeaderRequest) : Option HeaderRequest :=
  if request.retries + 1 > engine.config.maxRetries then none
  else
    some { request with retries := request.retries + 1, createdTick := engine.currentTick + 1 }

/-- A body request as the next tick enters it again, if that happens at all. -/
def bodyAgain (engine : SyncEngine) (request : BodyRequest) : Option BodyRequest :=
  if request.retries + 1 > engine.config.maxRetries then none
  else
    some { request with retries := request.retries + 1, createdTick := engine.currentTick + 1 }

/-- The next tick finds the header request timed out. -/
def headerExpires (engine : SyncEngine) (request : HeaderRequest) : Bool :=
  engine.currentTick + 1 - request.createdTick > engine.config.requestTimeoutTicks

/-- The next tick finds the body request timed out. -/
def bodyExpires (engine : SyncEngine) (request : BodyRequest) : Bool :=
  engine.currentTick + 1 - request.createdTick > engine.config.requestTimeoutTicks

/-- A request is entered again with one more try, which is allowed. -/
theorem headerAgain_eq_some {old request : HeaderRequest}
    (entered : engine.headerAgain old = some request)
    : request
        = { old with retries := old.retries + 1, createdTick := engine.currentTick + 1 }
      ∧ old.retries + 1 ≤ engine.config.maxRetries := by
  unfold headerAgain at entered
  split at entered
  next => simp at entered
  next few => exact ⟨(Option.some.inj entered).symm, Nat.not_lt.mp few⟩

theorem bodyAgain_eq_some {old request : BodyRequest}
    (entered : engine.bodyAgain old = some request)
    : request
        = { old with retries := old.retries + 1, createdTick := engine.currentTick + 1 }
      ∧ old.retries + 1 ≤ engine.config.maxRetries := by
  unfold bodyAgain at entered
  split at entered
  next => simp at entered
  next few => exact ⟨(Option.some.inj entered).symm, Nat.not_lt.mp few⟩

/-- Beside its results, a loop of retries renews the requests. -/
theorem foldl_retryRequest {R : Type} (again : R → Option R) (ids : List Nat)
    (progress : FinMap Nat R × Nat × List SyncResult)
    : ((ids.foldl (retryRequest again) progress).1,
        (ids.foldl (retryRequest again) progress).2.1)
      = ids.foldl (renew again) (progress.1, progress.2.1) := by
  induction ids generalizing progress with
  | nil => rfl
  | cons id rest ih =>
      rw [List.foldl_cons, List.foldl_cons, ih]
      congr 1
      unfold retryRequest renew
      simp only
      cases progress.1.lookup id with
      | none => rfl
      | some request =>
          simp only
          cases again request <;> rfl

theorem mem_timedOut {R : Type} {order : IterationOrder Nat R} {expired : R → Bool}
    {table : FinMap Nat R} {id : Nat}
    : id ∈ timedOut order expired table
      ↔ ∃ request, table.lookup id = some request ∧ expired request = true := by
  unfold timedOut
  rw [List.mem_filter, order.mem_keys, Option.any_eq_true]
  refine ⟨And.right, fun waits => ⟨?_, waits⟩⟩
  obtain ⟨_, found, _⟩ := waits
  exact Finmap.mem_of_lookup_eq_some found

theorem timedOut_below {R : Type} {order : IterationOrder Nat R} {expired : R → Bool}
    {table : FinMap Nat R} {next : Nat} (below : Below next table)
    : ∀ id ∈ timedOut order expired table, id < next := by
  intro id member
  obtain ⟨_, found, _⟩ := mem_timedOut.mp member
  exact below.of_lookup found

theorem renewed_retries {R : Type} (again : R → Option R) {order : IterationOrder Nat R}
    {expired : R → Bool} {table : FinMap Nat R} {next : Nat} (below : Below next table)
    (results : List SyncResult)
    : let ids := timedOut order expired table
      let progress := ids.foldl (retryRequest again) (table, next, results)
      Renewed again ids table next progress.1 progress.2.1 := by
  intro ids progress
  have renewed := @renewed_foldl _ table next ids again below (timedOut_below below)
  have same := foldl_retryRequest again ids (table, next, results)
  rwa [← congrArg Prod.fst same, ← congrArg Prod.snd same] at renewed

/-- A tick renews the header requests that have timed out and then the body requests, and leaves
what is downloaded as it is.
-/
theorem tick_renews (order : RequestOrder)
    (headerIds : Below engine.nextRequestId engine.headerRequests)
    (bodyIds : Below engine.nextRequestId engine.bodyRequests)
    : ∃ middle,
        Renewed engine.headerAgain
          (timedOut order.headers engine.headerExpires engine.headerRequests)
          engine.headerRequests engine.nextRequestId (engine.tick order).2.headerRequests middle
        ∧ Renewed engine.bodyAgain
            (timedOut order.bodies engine.bodyExpires engine.bodyRequests)
            engine.bodyRequests middle (engine.tick order).2.bodyRequests
            (engine.tick order).2.nextRequestId := by
  have headers := @renewed_retries _ engine.headerAgain order.headers engine.headerExpires _ _
    headerIds []
  exact ⟨_, headers, renewed_retries engine.bodyAgain (bodyIds.mono headers.later) _⟩

end SyncEngine

end VeloChain
