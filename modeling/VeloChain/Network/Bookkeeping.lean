import VeloChain.Network.Requests
import VeloChain.Network.StallRecovery

/-! The bookkeeping of the sync engine: how many requests are pending, under which numbers, how
often they are retried, and which ranges of headers a poll asks for.
-/

namespace VeloChain

open RequestTable

/-- All bounds of a configuration are positive. -/
structure SyncConfig.Positive (config : SyncConfig) : Prop where
  headersPerRequest : 0 < config.headersPerRequest
  bodiesPerRequest : 0 < config.bodiesPerRequest
  requestTimeoutTicks : 0 < config.requestTimeoutTicks
  maxRetries : 0 < config.maxRetries
  maxHeaderRequests : 0 < config.maxHeaderRequests
  maxBodyRequests : 0 < config.maxBodyRequests

/-- The height that an operation reports is below a bound. -/
def SyncOp.HeightsBelow (bound : Nat) : SyncOp → Prop
  | .onPeerStatus _ bestBlock _ => bestBlock < bound
  | .updateLocalHead newHead => newHead < bound
  | _ => True

namespace SyncEngine

-----------------------------------------------------------------------------------------
-- What is counted
-----------------------------------------------------------------------------------------

/-- No more requests are pending than the configuration allows, and none of them has been retried
more often.
-/
structure WithinLimits (config : SyncConfig) (engine : SyncEngine) : Prop where
  headerRequests : engine.headerRequests.keys.card ≤ config.maxHeaderRequests
  bodyRequests : engine.bodyRequests.keys.card ≤ config.maxBodyRequests
  headerRetries
    : ∀ id request, engine.headerRequests.lookup id = some request →
        request.retries ≤ config.maxRetries
  bodyRetries
    : ∀ id request, engine.bodyRequests.lookup id = some request →
        request.retries ≤ config.maxRetries

/-- The numbers of a table under which something else stood before, or nothing. -/
def changed {R : Type} [DecidableEq R] (before after : FinMap Nat R) : List Nat :=
  after.numbers.filter (fun id => after.lookup id ≠ before.lookup id)

/-- The numbers under which a call has issued a request: those that a poll returns, and those
under which a tick has entered a request again.
-/
def issuedIds (turn : ReturnedCall SyncEngine SyncOp SyncReply) : List Nat :=
  match turn.reply with
  | .headerRequests requests => requests.map Prod.fst
  | .bodyRequests requests => requests.map Prod.fst
  | .results _ =>
      changed turn.before.headerRequests turn.after.headerRequests
        ++ changed turn.before.bodyRequests turn.after.bodyRequests
  | _ => []

/-- A range of headers is not empty and lies after the local head, up to the target. -/
def InsideTarget (engine : SyncEngine) (start count : Nat) : Prop :=
  0 < count
  ∧ engine.localHead < start
  ∧ ∃ target, engine.target = some target ∧ start + count ≤ target.bestBlock + 1

/-- The ranges that a call asks headers for. -/
def askedRanges (turn : ReturnedCall SyncEngine SyncOp SyncReply) : List (Nat × Nat) :=
  match turn.reply with
  | .headerRequests requests => requests.map (fun request => (request.2.1, request.2.2.1))
  | _ => []

-----------------------------------------------------------------------------------------
-- The numbers of requests
-----------------------------------------------------------------------------------------

/-- The limits are kept, and the numbers in use are below the next one. -/
structure Booked (config : SyncConfig) (engine : SyncEngine) : Prop
    extends WithinLimits config engine where
  configured : engine.config = config
  headerIds : Below engine.nextRequestId engine.headerRequests
  bodyIds : Below engine.nextRequestId engine.bodyRequests

variable {config : SyncConfig} {engine : SyncEngine}

theorem booked_new (localHead : Nat) (config : SyncConfig)
    : Booked config (new localHead config) where
  headerRequests := Nat.zero_le _
  bodyRequests := Nat.zero_le _
  headerRetries := fun _ _ found => absurd found (by simp [new])
  bodyRetries := fun _ _ found => absurd found (by simp [new])
  configured := rfl
  headerIds := below_empty 1
  bodyIds := below_empty 1

/-- What an operation has to do with the numbers of requests: it keeps the books, and issues
requests under numbers from the next one on.
-/
structure Issues (config : SyncConfig) (turn : ReturnedCall SyncEngine SyncOp SyncReply) : Prop
    where
  booked : Booked config turn.after
  later : turn.before.nextRequestId ≤ turn.after.nextRequestId
  distinct : (issuedIds turn).Nodup
  fresh
    : ∀ id ∈ issuedIds turn, turn.before.nextRequestId ≤ id ∧ id < turn.after.nextRequestId

/-- A call that issues nothing keeps the books when it adds no request. -/
theorem Booked.keeps {op : SyncOp} (booked : Booked config engine)
    (none : issuedIds (engine.turn op) = []) (keeps : KeepsPending engine (engine.run op))
    : Issues config (engine.turn op) where
  booked :=
    { headerRequests := Nat.le_trans (card_le_of_lookup keeps.headers) booked.headerRequests
      bodyRequests := Nat.le_trans (card_le_of_lookup keeps.bodies) booked.bodyRequests
      headerRetries := fun id request found =>
        booked.headerRetries id request (keeps.headers id request found)
      bodyRetries := fun id request found =>
        booked.bodyRetries id request (keeps.bodies id request found)
      configured := keeps.config.trans booked.configured
      headerIds := keeps.nextRequestId ▸ booked.headerIds.of_lookups keeps.headers
      bodyIds := keeps.nextRequestId ▸ booked.bodyIds.of_lookups keeps.bodies }
  later := Nat.le_of_eq keeps.nextRequestId.symm
  distinct := by rw [none]; exact List.nodup_nil
  fresh := by rw [none]; exact fun _ member => absurd member List.not_mem_nil

/-- A poll enters header requests under the numbers that it returns, as many as there is room
for.
-/
theorem entered_pollHeaderRequests (ids : Below engine.nextRequestId engine.headerRequests)
    : Entered (fun request : HeaderRequest => request.retries = 0) engine.headerRequests
        engine.nextRequestId (engine.pollHeaderRequests.1.map Prod.fst)
        engine.pollHeaderRequests.2.headerRequests engine.pollHeaderRequests.2.nextRequestId
      ∧ engine.pollHeaderRequests.1.length
        ≤ engine.config.maxHeaderRequests - engine.headerRequests.keys.card := by
  rcases engine.pollHeaderRequests_cases with none | ⟨target, _, _, polled⟩
  · rw [none]
    exact ⟨entered_refl ids, Nat.zero_le _⟩
  rw [polled]
  obtain ⟨_, entered⟩ := @issueHeaderRequests_induction target
    (fun issued _ after =>
      Entered (fun request : HeaderRequest => request.retries = 0) engine.headerRequests
        engine.nextRequestId (issued.map Prod.fst) after.headerRequests after.nextRequestId)
    (fun issued start after entered _ => by
      rw [List.map_append]
      exact entered.insert rfl)
    (engine.config.maxHeaderRequests - engine.headerRequests.keys.card) [] engine.pollStart engine
    (entered_refl ids)
  exact ⟨entered, length_issueHeaderRequests _ _ _ _⟩

/-- A poll for headers. -/
theorem Booked.pollHeaderRequests (booked : Booked config engine)
    : Issues config (engine.turn .pollHeaderRequests) := by
  obtain ⟨nextRequestId, headerRequests, frame⟩ := engine.pollHeaderRequests_frame
  obtain ⟨entered, few⟩ := entered_pollHeaderRequests booked.headerIds
  have same : (engine.turn .pollHeaderRequests).after = engine.pollHeaderRequests.2 := rfl
  have bodies : engine.pollHeaderRequests.2.bodyRequests = engine.bodyRequests := by rw [frame]
  have configured : engine.pollHeaderRequests.2.config = config := by
    rw [frame]
    exact booked.configured
  have limit := booked.headerRequests
  refine
    { booked :=
        { headerRequests := ?_, bodyRequests := ?_, headerRetries := ?_, bodyRetries := ?_
          configured := configured, headerIds := entered.below, bodyIds := ?_ }
      later := entered.later, distinct := entered.nodup, fresh := fun _ => entered.mem }
  · rw [same, entered.size, List.length_map]
    rw [booked.configured] at few
    omega
  · rw [same, bodies]
    exact booked.bodyRequests
  · intro id request found
    rcases entered.entry id request found with old | untried
    · exact booked.headerRetries id request old
    · rw [untried]
      exact Nat.zero_le _
  · rw [same, bodies]
    exact booked.bodyRetries
  · rw [same, bodies]
    exact booked.bodyIds.mono entered.later

/-- A poll enters body requests under the numbers that it returns. -/
theorem entered_pollBodyRequests (ids : Below engine.nextRequestId engine.bodyRequests)
    : Entered (fun request : BodyRequest => request.retries = 0) engine.bodyRequests
        engine.nextRequestId (engine.pollBodyRequests.1.map Prod.fst)
        engine.pollBodyRequests.2.bodyRequests engine.pollBodyRequests.2.nextRequestId := by
  refine @pollBodyRequests_invariant engine
    (fun issued =>
      Entered (fun request : BodyRequest => request.retries = 0) engine.bodyRequests
        engine.nextRequestId (issued.1.map Prod.fst) issued.2.bodyRequests
        issued.2.nextRequestId)
    (fun issued hashes entered => ?_) (entered_refl ids)
  change Entered _ _ _ ((issued.1 ++ [_]).map Prod.fst) _ _
  rw [List.map_append]
  exact entered.insert rfl

/-- A poll for bodies. -/
theorem Booked.pollBodyRequests (booked : Booked config engine)
    : Issues config (engine.turn .pollBodyRequests) := by
  obtain ⟨nextRequestId, bodyRequests, frame⟩ := engine.pollBodyRequests_frame
  have entered := entered_pollBodyRequests booked.bodyIds
  have few := engine.length_pollBodyRequests
  have same : (engine.turn .pollBodyRequests).after = engine.pollBodyRequests.2 := rfl
  have headers : engine.pollBodyRequests.2.headerRequests = engine.headerRequests := by rw [frame]
  have configured : engine.pollBodyRequests.2.config = config := by
    rw [frame]
    exact booked.configured
  have limit := booked.bodyRequests
  refine
    { booked :=
        { headerRequests := ?_, bodyRequests := ?_, headerRetries := ?_, bodyRetries := ?_
          configured := configured, headerIds := ?_, bodyIds := entered.below }
      later := entered.later, distinct := entered.nodup, fresh := fun _ => entered.mem }
  · rw [same, headers]
    exact booked.headerRequests
  · rw [same, entered.size, List.length_map]
    rw [booked.configured] at few
    omega
  · rw [same, headers]
    exact booked.headerRetries
  · intro id request found
    rcases entered.entry id request found with old | untried
    · exact booked.bodyRetries id request old
    · rw [untried]
      exact Nat.zero_le _
  · rw [same, headers]
    exact booked.headerIds.mono entered.later

/-- Only numbers that were new to the table have changed in a renewed one. -/
theorem fresh_of_changed {R : Type} [DecidableEq R] {again : R → Option R} {ids : List Nat}
    {before after : FinMap Nat R} {next next' : Nat}
    (renewed : Renewed again ids before next after next')
    : ∀ id ∈ changed before after, next ≤ id ∧ id < next' := by
  intro id member
  obtain ⟨listed, different⟩ := List.mem_filter.mp member
  have isId := FinMap.mem_numbers.mp listed
  obtain ⟨request, found⟩ := Finmap.mem_iff.mp isId
  obtain ⟨origin, _, origins⟩ := renewed.origins
  refine ⟨?_, renewed.below id isId⟩
  obtain ⟨old, known, ⟨own, same⟩ | ⟨above, _⟩⟩ := origins id request found
  · rw [← own] at known
    rw [decide_eq_true_eq, found, known, same] at different
    exact absurd rfl different
  · exact above

theorem nodup_changed {R : Type} [DecidableEq R] (before after : FinMap Nat R)
    : (changed before after).Nodup :=
  (FinMap.nodup_sortedKeys after).filter _

/-- A bound on the retries is kept by the requests that are entered again. -/
theorem retries_of_renewed {R : Type} {again : R → Option R} {ids : List Nat}
    {before after : FinMap Nat R} {next next' : Nat} {retries : R → Nat} {most : Nat}
    (renewed : Renewed again ids before next after next')
    (bounded : ∀ old request, again old = some request → retries request ≤ most)
    (held : ∀ id request, before.lookup id = some request → retries request ≤ most)
    : ∀ id request, after.lookup id = some request → retries request ≤ most := by
  intro id request found
  obtain ⟨origin, _, origins⟩ := renewed.origins
  obtain ⟨old, known, ⟨_, rfl⟩ | ⟨_, entered⟩⟩ := origins id request found
  · exact held _ _ known
  · exact bounded old request entered

/-- A tick. -/
theorem Booked.tick (booked : Booked config engine) (order : RequestOrder)
    : Issues config (engine.turn (.tick order)) := by
  obtain ⟨middle, headers, bodies⟩ := tick_renews order booked.headerIds booked.bodyIds
  have ids : issuedIds (engine.turn (.tick order))
      = changed engine.headerRequests (engine.tick order).2.headerRequests
        ++ changed engine.bodyRequests (engine.tick order).2.bodyRequests := rfl
  have configured := booked.configured
  refine
    { booked :=
        { headerRequests := Nat.le_trans headers.card_le booked.headerRequests
          bodyRequests := Nat.le_trans bodies.card_le booked.bodyRequests
          headerRetries := retries_of_renewed headers ?_ booked.headerRetries
          bodyRetries := retries_of_renewed bodies ?_ booked.bodyRetries
          configured := configured
          headerIds := headers.below.mono bodies.later
          bodyIds := bodies.below }
      later := Nat.le_trans headers.later bodies.later, distinct := ?_, fresh := ?_ }
  · intro old request entered
    obtain ⟨rfl, few⟩ := headerAgain_eq_some entered
    rwa [configured] at few
  · intro old request entered
    obtain ⟨rfl, few⟩ := bodyAgain_eq_some entered
    rwa [configured] at few
  · rw [ids]
    refine List.nodup_append.mpr ⟨nodup_changed _ _, nodup_changed _ _, ?_⟩
    intro id isHeader id' isBody same
    have below := fresh_of_changed headers id isHeader
    have above := fresh_of_changed bodies id' isBody
    omega
  · intro id member
    rw [ids] at member
    change engine.nextRequestId ≤ id ∧ id < (engine.tick order).2.nextRequestId
    have atMiddle := headers.later
    have atEnd := bodies.later
    rcases List.mem_append.mp member with isHeader | isBody
    · have fresh := fresh_of_changed headers id isHeader
      omega
    · have fresh := fresh_of_changed bodies id isBody
      omega

/-- Every call keeps the books. -/
theorem Booked.turn (booked : Booked config engine) (op : SyncOp)
    : Issues config (engine.turn op) := by
  cases op with
  | pollHeaderRequests => exact booked.pollHeaderRequests
  | pollBodyRequests => exact booked.pollBodyRequests
  | tick order => exact booked.tick order
  | _ => exact booked.keeps rfl (keepsPending_run nofun nofun nofun)

/-- The numbers that the calls of a run have issued so far are distinct and below the next one. -/
structure IssuedOnce (config : SyncConfig)
    (past : List (ReturnedCall SyncEngine SyncOp SyncReply)) (engine : SyncEngine) : Prop where
  booked : Booked config engine
  distinct : (past.flatMap issuedIds).Nodup
  below : ∀ id ∈ past.flatMap issuedIds, id < engine.nextRequestId

theorem IssuedOnce.call {past : List (ReturnedCall SyncEngine SyncOp SyncReply)}
    {turn : ReturnedCall SyncEngine SyncOp SyncReply} (once : IssuedOnce config past turn.before)
    (returns : call turn.op turn.before = some (turn.reply, turn.after))
    : IssuedOnce config (past ++ [turn]) turn.after := by
  obtain ⟨booked, later, distinct, fresh⟩ : Issues config turn :=
    eq_turn returns ▸ once.booked.turn turn.op
  have splits : (past ++ [turn]).flatMap issuedIds = past.flatMap issuedIds ++ issuedIds turn := by
    rw [List.flatMap_append, List.flatMap_singleton]
  refine ⟨booked, ?_, ?_⟩
  · rw [splits]
    refine List.nodup_append.mpr ⟨once.distinct, distinct, fun id isOld id' isNew same => ?_⟩
    have below := once.below id isOld
    have above := (fresh id' isNew).1
    omega
  · rw [splits]
    intro id member
    rcases List.mem_append.mp member with isOld | isNew
    · exact Nat.lt_of_lt_of_le (once.below id isOld) later
    · exact (fresh id isNew).2

theorem issuedOnce_run (localHead : Nat) (config : SyncConfig) (ops : List SyncOp)
    : IssuedOnce config (CallTrace.calls call ops (new localHead config))
        ((new localHead config).runAll ops) := by
  have once := @CallTrace.past_invariant_final _ _ _ call (IssuedOnce config)
    (fun _ _ once returns => once.call returns) ops (new localHead config) []
    ⟨booked_new localHead config, List.nodup_nil, fun _ member => absurd member List.not_mem_nil⟩
  rwa [List.nil_append, final_call] at once

-----------------------------------------------------------------------------------------
-- The ranges of requests
-----------------------------------------------------------------------------------------

/-- The local head and the target are below a bound, and the head is below the target. -/
structure HeightsBelow (bound : Nat) (engine : SyncEngine) : Prop where
  head : engine.localHead < bound
  target
    : ∀ target, engine.target = some target →
        engine.localHead < target.bestBlock ∧ target.bestBlock < bound

variable {bound : Nat}

theorem heightsBelow_new {localHead : Nat} (low : localHead < bound) (config : SyncConfig)
    : HeightsBelow bound (new localHead config) :=
  ⟨low, fun _ found => absurd found nofun⟩

/-- A target or a head that moves leaves the head below the target. -/
theorem HeightsBelow.run (low : HeightsBelow bound engine) {op : SyncOp}
    (lowOp : op.HeightsBelow bound)
    : HeightsBelow bound (engine.run op) := by
  have same {after : SyncEngine} (head : after.localHead = engine.localHead)
      (target : after.target = engine.target)
      : HeightsBelow bound after :=
    ⟨head ▸ low.head, fun aim found => head ▸ low.target aim (target ▸ found)⟩
  cases op with
  | banPeer peerId => exact same rfl rfl
  | onPeerStatus peerId bestBlock bestHash =>
      change HeightsBelow bound (engine.onPeerStatus peerId bestBlock bestHash)
      rcases engine.onPeerStatus_cases peerId bestBlock bestHash with kept | ⟨above, _, aims⟩
      · rw [kept]
        exact low
      · rw [aims]
        refine ⟨low.head, fun aim found => ?_⟩
        obtain rfl := Option.some.inj found
        exact ⟨above, lowOp⟩
  | updateLocalHead newHead =>
      change HeightsBelow bound (engine.updateLocalHead newHead)
      unfold updateLocalHead
      simp only
      split
      next none => exact ⟨lowOp, fun aim found => absurd (none.symm.trans found) nofun⟩
      next target isTarget =>
        split
        next => exact ⟨lowOp, fun _ found => absurd found nofun⟩
        next below =>
          refine ⟨lowOp, fun aim found => ?_⟩
          obtain rfl := Option.some.inj (isTarget.symm.trans found)
          exact ⟨Nat.lt_of_not_le below, (low.target target isTarget).2⟩
  | pollHeaderRequests =>
      obtain ⟨_, _, frame⟩ := engine.pollHeaderRequests_frame
      change HeightsBelow bound engine.pollHeaderRequests.2
      rw [frame]
      exact same rfl rfl
  | onHeadersReceived headers => cases headers <;> exact same rfl rfl
  | pollBodyRequests =>
      obtain ⟨_, _, frame⟩ := engine.pollBodyRequests_frame
      change HeightsBelow bound engine.pollBodyRequests.2
      rw [frame]
      exact same rfl rfl
  | onBodiesReceived hashes => exact same rfl rfl
  | verifyChain =>
      change HeightsBelow bound engine.verifyChain.2
      rcases engine.verifyChain_cases with ⟨_, _, verified⟩ | ⟨_, kept⟩
      · rw [verified]
        exact same rfl rfl
      · rw [kept]
        exact low
  | tick order => exact same rfl rfl
  | drainImportReady => exact same rfl rfl

/-- Before each call of a run with heights below a bound they are below it. -/
theorem heightsBelow_before {localHead : Nat} (low : localHead < bound) {ops : List SyncOp}
    (lowOps : ∀ op ∈ ops, op.HeightsBelow bound)
    {turn : ReturnedCall SyncEngine SyncOp SyncReply}
    (member : turn ∈ CallTrace.calls call ops (new localHead config))
    : HeightsBelow bound turn.before := by
  obtain ⟨earlier, later, split, isBefore, _⟩ := CallTrace.exists_prefix_of_mem member
  rw [← isBefore, final_call]
  refine List.foldlRecOn (motive := HeightsBelow bound) earlier run (heightsBelow_new low config)
    (fun _ low op isOp => low.run (lowOps op ?_))
  rw [split, List.append_assoc]
  exact List.mem_append_left _ isOp

/-- The books are kept before each call of a run. -/
theorem booked_before {localHead : Nat} {ops : List SyncOp}
    {turn : ReturnedCall SyncEngine SyncOp SyncReply}
    (member : turn ∈ CallTrace.calls call ops (new localHead config))
    : Booked config turn.before := by
  obtain ⟨earlier, _, _, isBefore, _⟩ := CallTrace.exists_prefix_of_mem member
  rw [← isBefore, final_call]
  exact (issuedOnce_run localHead config earlier).booked

theorem HeightsBelow.localHead_lt_pollStart (low : HeightsBelow (2 ^ 64 - 1) engine)
    : engine.localHead < engine.pollStart := by
  have head := low.head
  unfold pollStart
  rw [word_of_lt (by omega : engine.localHead + 1 < 2 ^ 64)]
  omega

/-- Each request of a poll covers some numbers, all of them after the head and up to the target,
by induction on the turns of the loop.
-/
theorem HeightsBelow.insideTarget (low : HeightsBelow (2 ^ 64 - 1) engine)
    (sized : 0 < engine.config.headersPerRequest)
    : ∀ request ∈ engine.pollHeaderRequests.1, engine.InsideTarget request.2.1 request.2.2.1 := by
  rcases engine.pollHeaderRequests_cases with none | ⟨target, isTarget, _, polled⟩
  · rw [none]
    exact fun _ member => absurd member List.not_mem_nil
  rw [polled]
  obtain ⟨_, small⟩ := low.target target isTarget
  obtain ⟨_, _, _, inside⟩ := @issueHeaderRequests_induction target
    (fun issued start after =>
      engine.localHead < start
      ∧ after.config = engine.config
      ∧ ∀ request ∈ issued, engine.InsideTarget request.2.1 request.2.2.1)
    (fun issued start after ⟨above, configured, inside⟩ below => by
      have fits : target.bestBlock - start + 1 < 2 ^ 64 := by omega
      have count
          : (nextHeaderRequest target start after).count
            = min engine.config.headersPerRequest (target.bestBlock - start + 1) := by
        unfold nextHeaderRequest
        simp only [word_of_lt fits, configured]
      rw [count, word_of_lt (by omega)]
      refine ⟨by omega, configured, fun request member => ?_⟩
      rcases List.mem_append.mp member with old | new
      · exact inside request old
      · obtain rfl := List.mem_singleton.mp new
        exact ⟨by simp only; omega, above, target, isTarget, by simp only; omega⟩)
    (engine.config.maxHeaderRequests - engine.headerRequests.keys.card) [] engine.pollStart engine
    ⟨low.localHead_lt_pollStart, rfl, fun _ member => absurd member List.not_mem_nil⟩
  exact inside

-----------------------------------------------------------------------------------------
-- Whole runs
-----------------------------------------------------------------------------------------

/-- In every run with low heights the limits are kept, no number is issued twice, and polls ask
for headers between the head and the target only.
-/
theorem bookkeeping_run {config : SyncConfig} (positive : config.Positive) {localHead : Nat}
    (low : localHead < 2 ^ 64 - 1) {ops : List SyncOp}
    (lowOps : ∀ op ∈ ops, op.HeightsBelow (2 ^ 64 - 1))
    : WithinLimits config ((new localHead config).runAll ops)
      ∧ ((CallTrace.calls call ops (new localHead config)).flatMap issuedIds).Nodup
      ∧ ∀ turn ∈ CallTrace.calls call ops (new localHead config),
          ∀ range ∈ askedRanges turn, turn.before.InsideTarget range.1 range.2 := by
  have once := issuedOnce_run localHead config ops
  refine ⟨once.booked.toWithinLimits, once.distinct, fun turn member range asked => ?_⟩
  have lowBefore := heightsBelow_before low lowOps member
  have configured := (booked_before member).configured
  rw [eq_turn (CallTrace.call_of_mem member)] at asked
  cases op : turn.op with
  | pollHeaderRequests =>
      rw [op] at asked
      obtain ⟨request, isRequest, rfl⟩ := List.mem_map.mp asked
      exact lowBefore.insideTarget (configured ▸ positive.headersPerRequest) request isRequest
  | _ =>
      rw [op] at asked
      exact absurd asked List.not_mem_nil

/-- A new engine with the default limits that learns of block 300 and polls twice around a tick. -/
theorem bookkeeping_run_twoPolls
    : let ops : List SyncOp :=
        [.onPeerStatus "peer1" 300 5, .pollHeaderRequests, .tick byId, .pollHeaderRequests]
      WithinLimits .default ((new 0 .default).runAll ops)
      ∧ ((CallTrace.calls call ops (new 0 .default)).flatMap issuedIds).Nodup
      ∧ ∀ turn ∈ CallTrace.calls call ops (new 0 .default),
          ∀ range ∈ askedRanges turn, turn.before.InsideTarget range.1 range.2 :=
  bookkeeping_run (by constructor <;> decide) (by decide)
    (by
      intro op member
      simp only [List.mem_cons, List.not_mem_nil, or_false] at member
      rcases member with rfl | rfl | rfl | rfl
      · exact Nat.lt_of_lt_of_le (by decide : 300 < 301) (by decide)
      · trivial
      · trivial
      · trivial)

end SyncEngine

end VeloChain
