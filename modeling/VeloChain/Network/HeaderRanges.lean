import VeloChain.Network.Bookkeeping
import VeloChain.Network.Polls

/-! The ranges of the pending header requests.
A poll starts with the highest number that it finds, which is where the last request ends or a
header that is there already. In the second case that header is asked for again.
-/

namespace VeloChain

open RequestTable

/-- The number lies in the range of the request. -/
def HeaderRequest.Covers (request : HeaderRequest) (number : Nat) : Prop :=
  request.start ≤ number ∧ number < request.start + request.count

namespace SyncEngine

/-- No number lies in the ranges of two pending requests. -/
def DisjointRequests (engine : SyncEngine) : Prop :=
  ∀ id id' request request' number, engine.headerRequests.lookup id = some request →
    engine.headerRequests.lookup id' = some request' → request.Covers number →
    request'.Covers number → id = id'

/-- The call asks for no header that is there already. -/
def AsksFresh (turn : ReturnedCall SyncEngine SyncOp SyncReply) : Prop :=
  ∀ range ∈ askedRanges turn, ∀ number, range.1 ≤ number → number < range.1 + range.2 →
    number ∉ turn.before.headers

/-- When a poll wants headers, the highest one that is there lies below the end of a pending
request or is not above the local head.
-/
def DownloadedBelow (engine : SyncEngine) : SyncOp → Prop
  | .pollHeaderRequests =>
      ∀ target, engine.target = some target → engine.HeadersWanted target →
        engine.headers.highest < max engine.highestRequested (engine.localHead + 1)
  | _ => True

/-- When a poll wants headers, no pending request reaches the end of the words. -/
def EndsInRange (engine : SyncEngine) : SyncOp → Prop
  | .pollHeaderRequests =>
      ∀ target, engine.target = some target → engine.HeadersWanted target →
        ∀ id request, engine.headerRequests.lookup id = some request →
          request.start + request.count < 2 ^ 64
  | _ => True

variable {config : SyncConfig} {engine : SyncEngine}

-----------------------------------------------------------------------------------------
-- One turn of the loop
-----------------------------------------------------------------------------------------

/-- Where a turn may start: at zero only when the numbers of the words have all been asked
for.
-/
def Onward (target : SyncTarget) (start : Nat) : Prop :=
  0 < start ∨ target.bestBlock + 1 = 2 ^ 64

/-- A turn that starts at zero asks for nothing; any other asks for headers up to the target. -/
theorem nextHeaderRequest_onward {target : SyncTarget} {start : Nat}
    (small : target.bestBlock < 2 ^ 64) (below : start ≤ target.bestBlock)
    (onward : Onward target start)
    : (start = 0 → (nextHeaderRequest target start engine).count = 0)
      ∧ Onward target (word (start + (nextHeaderRequest target start engine).count))
      ∧ (word (start + (nextHeaderRequest target start engine).count) = 0
        ∨ word (start + (nextHeaderRequest target start engine).count)
          = start + (nextHeaderRequest target start engine).count) := by
  have least
      : (nextHeaderRequest target start engine).count
        ≤ word (target.bestBlock - start + 1) :=
    Nat.min_le_right _ _
  generalize (nextHeaderRequest target start engine).count = count at least ⊢
  unfold Onward at onward ⊢
  by_cases zero : start = 0
  · have all : word (target.bestBlock - start + 1) = 0 := by
      have last := onward.resolve_left (by omega)
      rw [zero, Nat.sub_zero, last]
      rfl
    have none : count = 0 := by omega
    rw [zero, none]
    exact ⟨fun _ => rfl, Or.inr (onward.resolve_left (by omega)), Or.inl rfl⟩
  · rw [word_of_lt (by omega)] at least
    refine ⟨fun isZero => absurd isZero zero, ?_⟩
    by_cases inside : start + count < 2 ^ 64
    · rw [word_of_lt inside]
      exact ⟨Or.inl (by omega), Or.inr rfl⟩
    · have ends : start + count = 2 ^ 64 := by omega
      have wraps : word (start + count) = 0 := by rw [ends]; rfl
      exact ⟨Or.inr (by omega), Or.inl wraps⟩

-----------------------------------------------------------------------------------------
-- What a poll asks for
-----------------------------------------------------------------------------------------

theorem pollStart_pos (heights : HeightsBelow (2 ^ 64) engine) {target : SyncTarget}
    (isTarget : engine.target = some target)
    : word (engine.localHead + 1) = engine.localHead + 1 ∧ 0 < engine.pollStart := by
  obtain ⟨above, small⟩ := heights.target target isTarget
  have first : word (engine.localHead + 1) = engine.localHead + 1 := word_of_lt (by omega)
  refine ⟨first, ?_⟩
  unfold pollStart
  omega

/-- All numbers that a poll asks for are at its start or after it, by induction on the turns. -/
theorem pollStart_le_asked (heights : HeightsBelow (2 ^ 64) engine)
    : ∀ request ∈ engine.pollHeaderRequests.1, ∀ number, request.2.1 ≤ number →
        number < request.2.1 + request.2.2.1 → engine.pollStart ≤ number := by
  rcases engine.pollHeaderRequests_cases with none | ⟨target, isTarget, _, polled⟩
  · rw [none]
    exact fun _ member => absurd member List.not_mem_nil
  rw [polled]
  have small := (heights.target target isTarget).2
  obtain ⟨_, _, _, asked⟩ := @issueHeaderRequests_induction target
    (fun issued start _ =>
      Onward target start
      ∧ (start = 0 ∨ engine.pollStart ≤ start)
      ∧ ∀ request ∈ issued, ∀ number, request.2.1 ≤ number →
          number < request.2.1 + request.2.2.1 → engine.pollStart ≤ number)
    (fun issued start after ⟨onward, later, asked⟩ below => by
      obtain ⟨none, onward', stop⟩ := @nextHeaderRequest_onward after _ _ small below onward
      refine ⟨onward', by omega, fun request member number first last => ?_⟩
      rcases List.mem_append.mp member with old | new
      · exact asked request old number first last
      · obtain rfl := List.mem_singleton.mp new
        simp only at first last
        omega)
    (engine.config.maxHeaderRequests - engine.headerRequests.keys.card) [] engine.pollStart engine
    ⟨Or.inl (pollStart_pos heights isTarget).2, Or.inr (Nat.le_refl _),
      fun _ member => absurd member List.not_mem_nil⟩
  exact asked

/-- A poll that wants headers asks for the number that it starts with. -/
theorem pollStart_asked (heights : HeightsBelow (2 ^ 64) engine)
    (sized : 0 < engine.config.headersPerRequest) {target : SyncTarget}
    (isTarget : engine.target = some target) (wanted : engine.HeadersWanted target)
    : ∃ count > 0,
        ∃ id peer, (id, engine.pollStart, count, peer) ∈ engine.pollHeaderRequests.1 := by
  obtain ⟨more, isMore⟩ := Nat.exists_eq_succ_of_ne_zero
    (Nat.ne_of_gt (Nat.sub_pos_of_lt wanted.slots))
  have polled
      : engine.pollHeaderRequests
        = issueHeaderRequests target (more + 1) engine.pollStart engine := by
    unfold pollHeaderRequests pollStart
    rw [if_neg (not_not.mpr wanted.state), isTarget]
    simp only [isMore]
  obtain ⟨rest, first, _⟩ := issueHeaderRequests_succ wanted.below more engine
  rw [polled, first]
  refine ⟨_, ?_, _, _, List.mem_cons_self⟩
  have start := (pollStart_pos heights isTarget).2
  have small := (heights.target target isTarget).2
  have below := wanted.below
  unfold nextHeaderRequest
  simp only
  rw [word_of_lt (by omega)]
  omega

/-- A poll asks for nothing that is there exactly when it starts above everything that is there. -/
theorem asksFresh_iff (heights : HeightsBelow (2 ^ 64) engine)
    (sized : 0 < engine.config.headersPerRequest) (op : SyncOp)
    : AsksFresh (engine.turn op) ↔ engine.DownloadedBelow op := by
  cases op with
  | pollHeaderRequests =>
      constructor
      · intro fresh target isTarget wanted
        by_contra above
        have first := (pollStart_pos heights isTarget).1
        have start : engine.pollStart = engine.headers.highest := by
          unfold pollStart
          omega
        obtain ⟨count, some_, id, peer, member⟩ := pollStart_asked heights sized isTarget wanted
        refine fresh (engine.pollStart, count) (List.mem_map.mpr ⟨_, member, rfl⟩) engine.pollStart
          (Nat.le_refl _) (Nat.lt_add_of_pos_right some_) ?_
        rw [start]
        exact engine.headers.highest_eq_zero_or_mem.resolve_left (by omega)
      · rintro below range asked number lower upper stored
        obtain ⟨request, isRequest, rfl⟩ := List.mem_map.mp asked
        obtain ⟨target, isTarget, wanted⟩ :=
          engine.pollHeaderRequests_ne_nil.mp (List.ne_nil_of_mem isRequest)
        have first := (pollStart_pos heights isTarget).1
        have later := pollStart_le_asked heights request isRequest number lower upper
        have highest := FinMap.le_highest stored
        have under := below target isTarget wanted
        change number ≤ engine.headers.highest at highest
        unfold pollStart at later
        omega
  | _ => exact ⟨fun _ => trivial, fun _ _ asked => absurd asked List.not_mem_nil⟩

/-- A poll that asks for nothing leaves the engine alone. -/
theorem pollHeaderRequests_of_nil (none : engine.pollHeaderRequests.1 = [])
    : engine.pollHeaderRequests.2 = engine := by
  rcases engine.pollHeaderRequests_cases with same | ⟨target, _, _, polled⟩
  · rw [same]
  · rw [polled] at none ⊢
    unfold issueHeaderRequests at none ⊢
    split at none
    next => rfl
    next =>
      split at none
      next above => rw [if_pos above]
      next => exact absurd none (List.cons_ne_nil _ _)

-----------------------------------------------------------------------------------------
-- Disjoint ranges
-----------------------------------------------------------------------------------------

theorem disjointRequests_new (localHead : Nat) (config : SyncConfig)
    : DisjointRequests (new localHead config) :=
  fun _ _ _ _ _ found => absurd found (by simp [new])

theorem DisjointRequests.keeps {after : SyncEngine} (disjoint : engine.DisjointRequests)
    (keeps : KeepsPending engine after)
    : after.DisjointRequests :=
  fun id id' request request' number found found' =>
    disjoint id id' request request' number (keeps.headers id request found)
      (keeps.headers id' request' found')

/-- A request is disjoint from those that end where it starts, or covers nothing. -/
theorem DisjointRequests.withHeaderRequest (disjoint : engine.DisjointRequests)
    {request : HeaderRequest}
    (apart
      : ∀ number, request.Covers number →
          ∀ id old, engine.headerRequests.lookup id = some old → ¬ old.Covers number)
    : (engine.withHeaderRequest request).DisjointRequests := by
  intro id id' left right number found found' inLeft inRight
  change (engine.headerRequests.insert engine.nextRequestId request).lookup _ = _ at found found'
  rw [FinMap.lookup_insert_eq] at found found'
  split at found
  next here =>
    obtain rfl := Option.some.inj found
    split at found'
    next here' => rw [here, here']
    next => exact absurd inRight (apart number inLeft id' right found')
  next =>
    split at found'
    next =>
      obtain rfl := Option.some.inj found'
      exact absurd inLeft (apart number inRight id left found)
    next => exact disjoint id id' left right number found found' inLeft inRight

/-- The end of a pending request that does not wrap is at most where a poll starts. -/
theorem end_le_pollStart {id : Nat} {request : HeaderRequest}
    (found : engine.headerRequests.lookup id = some request)
    (inRange : request.start + request.count < 2 ^ 64)
    : request.start + request.count ≤ engine.pollStart := by
  have below := le_highestRequested found
  rw [word_of_lt inRange] at below
  unfold pollStart
  omega

/-- The requests of a poll are disjoint from each other and from what is pending, by induction
on the turns.
-/
theorem DisjointRequests.pollHeaderRequests (disjoint : engine.DisjointRequests)
    (heights : HeightsBelow (2 ^ 64) engine) (ends : engine.EndsInRange .pollHeaderRequests)
    : engine.pollHeaderRequests.2.DisjointRequests := by
  by_cases polls : engine.pollHeaderRequests.1 = []
  · rw [pollHeaderRequests_of_nil polls]
    exact disjoint
  obtain ⟨target, isTarget, wanted⟩ := engine.pollHeaderRequests_ne_nil.mp polls
  rcases engine.pollHeaderRequests_cases with none | ⟨target', isTarget', _, polled⟩
  · exact absurd (congrArg Prod.fst none) polls
  obtain rfl := Option.some.inj (isTarget.symm.trans isTarget')
  have small := (heights.target target isTarget).2
  have inRange := ends target isTarget wanted
  rw [polled]
  obtain ⟨_, _, _, disjoint⟩ := @issueHeaderRequests_induction target
    (fun _ start after =>
      Onward target start
      ∧ (start = 0
        ∨ ∀ id request, after.headerRequests.lookup id = some request →
            request.start + request.count ≤ start)
      ∧ after.DisjointRequests)
    (fun _ start after ⟨onward, later, disjoint⟩ below => by
      obtain ⟨none, onward', stop⟩ := @nextHeaderRequest_onward after _ _ small below onward
      refine ⟨onward', ?_, disjoint.withHeaderRequest ?_⟩
      · rcases stop with wraps | goes
        · exact Or.inl wraps
        rcases later with zero | ended
        · have nothing := none zero
          omega
        right
        intro id request found
        change (after.headerRequests.insert _ _).lookup id = _ at found
        rw [FinMap.lookup_insert_eq] at found
        split at found
        next =>
          obtain rfl := Option.some.inj found
          exact Nat.le_of_eq goes.symm
        next =>
          have := ended id request found
          omega
      · rintro number ⟨lower, upper⟩ id old found ⟨_, inside⟩
        change start ≤ number at lower
        change number < start + _ at upper
        rcases later with zero | ended
        · omega
        · have := ended id old found
          omega)
    (engine.config.maxHeaderRequests - engine.headerRequests.keys.card) [] engine.pollStart engine
    ⟨Or.inl (pollStart_pos heights isTarget).2,
      Or.inr (fun id request found => end_le_pollStart found (inRange id request found)), disjoint⟩
  exact disjoint

/-- A request that is entered again keeps its range. -/
theorem range_of_headerAgain {old request : HeaderRequest}
    (entered : engine.headerAgain old = some request)
    : request.start = old.start ∧ request.count = old.count := by
  obtain ⟨rfl, _⟩ := headerAgain_eq_some entered
  exact ⟨rfl, rfl⟩

theorem DisjointRequests.tick (disjoint : engine.DisjointRequests) (booked : Booked config engine)
    (order : RequestOrder)
    : (engine.tick order).2.DisjointRequests := by
  obtain ⟨_, renewed, _⟩ := tick_renews order booked.headerIds booked.bodyIds
  obtain ⟨origin, apart, origins⟩ := renewed.origins
  have covered {id : Nat} {request : HeaderRequest} {number : Nat}
      (found : (engine.tick order).2.headerRequests.lookup id = some request)
      (inside : request.Covers number)
      : ∃ old, engine.headerRequests.lookup (origin id) = some old ∧ old.Covers number := by
    obtain ⟨old, known, ⟨_, rfl⟩ | ⟨_, entered⟩⟩ := origins id request found
    · exact ⟨request, known, inside⟩
    · obtain ⟨sameStart, sameCount⟩ := range_of_headerAgain entered
      unfold HeaderRequest.Covers at inside ⊢
      rw [sameStart, sameCount] at inside
      exact ⟨old, known, inside⟩
  intro id id' request request' number found found' inside inside'
  obtain ⟨old, known, inOld⟩ := covered found inside
  obtain ⟨old', known', inOld'⟩ := covered found' inside'
  exact apart (Finmap.mem_of_lookup_eq_some found) (Finmap.mem_of_lookup_eq_some found')
    (disjoint _ _ old old' number known known' inOld inOld')

/-- Every operation keeps the ranges disjoint, by cases on the operation. -/
theorem DisjointRequests.run (disjoint : engine.DisjointRequests) (booked : Booked config engine)
    (heights : HeightsBelow (2 ^ 64) engine) {op : SyncOp} (ends : engine.EndsInRange op)
    : (engine.run op).DisjointRequests := by
  cases op with
  | pollHeaderRequests => exact disjoint.pollHeaderRequests heights ends
  | pollBodyRequests =>
      obtain ⟨_, _, frame⟩ := engine.pollBodyRequests_frame
      change engine.pollBodyRequests.2.DisjointRequests
      rw [frame]
      exact disjoint
  | tick order => exact disjoint.tick booked order
  | _ => exact disjoint.keeps (keepsPending_run nofun nofun nofun)

-----------------------------------------------------------------------------------------
-- Whole runs
-----------------------------------------------------------------------------------------

/-- In every run whose heights are words and whose polls find no downloaded header above the
pending ones, and no pending request that reaches the end of the words, all ranges are disjoint
and polls ask for nothing that is there. The first condition is met in every run whose polls do.
-/
theorem headerRanges_run {config : SyncConfig} (positive : config.Positive) {localHead : Nat}
    (heights : localHead < 2 ^ 64) {ops : List SyncOp}
    (heightsOps : ∀ op ∈ ops, op.HeightsBelow (2 ^ 64))
    : (Throughout DownloadedBelow ops (new localHead config)
        ∧ Throughout EndsInRange ops (new localHead config) →
          ∀ turn ∈ CallTrace.calls call ops (new localHead config),
            turn.after.DisjointRequests ∧ AsksFresh turn)
      ∧ ((∀ turn ∈ CallTrace.calls call ops (new localHead config), AsksFresh turn) →
          Throughout DownloadedBelow ops (new localHead config)) := by
  have bounded {turn : ReturnedCall SyncEngine SyncOp SyncReply}
      (member : turn ∈ CallTrace.calls call ops (new localHead config))
      : HeightsBelow (2 ^ 64) turn.before :=
    heightsBelow_before heights heightsOps member
  have fresh {turn : ReturnedCall SyncEngine SyncOp SyncReply}
      (member : turn ∈ CallTrace.calls call ops (new localHead config))
      : AsksFresh turn ↔ turn.before.DownloadedBelow turn.op := by
    rw [eq_turn (CallTrace.call_of_mem member)]
    refine asksFresh_iff (bounded member) ?_ turn.op
    rw [(booked_before member).configured]
    exact positive.headersPerRequest
  have apart (ends : Throughout EndsInRange ops (new localHead config))
      : ∀ turn ∈ CallTrace.calls call ops (new localHead config),
          turn.after.DisjointRequests := by
    refine CallTrace.forall_after (fun turn member disjoint returns => ?_)
      (disjointRequests_new localHead config)
    rw [(turn_of_call returns).2]
    exact disjoint.run (booked_before member) (bounded member) (ends turn member)
  exact ⟨
    fun ⟨below, ends⟩ turn member =>
      ⟨apart ends turn member, (fresh member).mpr (below turn member)⟩,
    fun asks turn member => (fresh member).mp (asks turn member)⟩

/-- One request of two headers at a time. -/
def smallConfig : SyncConfig :=
  { SyncConfig.default with headersPerRequest := 2, maxHeaderRequests := 1 }

theorem positive_smallConfig : smallConfig.Positive := by constructor <;> decide

/-- A new engine that polls after a status. -/
theorem headerRanges_run_onePoll
    : let ops : List SyncOp := [.onPeerStatus "peer1" 3 5, .pollHeaderRequests]
      (Throughout DownloadedBelow ops (new 0 smallConfig)
          ∧ Throughout EndsInRange ops (new 0 smallConfig) →
            ∀ turn ∈ CallTrace.calls call ops (new 0 smallConfig),
              turn.after.DisjointRequests ∧ AsksFresh turn)
        ∧ ((∀ turn ∈ CallTrace.calls call ops (new 0 smallConfig), AsksFresh turn) →
            Throughout DownloadedBelow ops (new 0 smallConfig)) :=
  headerRanges_run positive_smallConfig (by decide)
    (by
      intro op member
      simp only [List.mem_cons, List.not_mem_nil, or_false] at member
      rcases member with rfl | rfl
      · exact Nat.lt_of_lt_of_le (by decide : 3 < 4) (by decide)
      · trivial)

/-- After the complete answer to the only request, block 2 is asked for again. -/
theorem headerRanges_fails_onHighest
    : let ops : List SyncOp :=
        [.onPeerStatus "peer1" 3 5, .pollHeaderRequests,
          .onHeadersReceived [numberedHeader 1, numberedHeader 2], .pollHeaderRequests]
      smallConfig.Positive
      ∧ ¬ ∀ turn ∈ CallTrace.calls call ops (new 0 smallConfig),
          turn.after.DisjointRequests ∧ AsksFresh turn := by
  refine ⟨positive_smallConfig, fun holds => ?_⟩
  simp only [CallTrace.calls, call, List.forall_mem_cons] at holds
  obtain ⟨_, _, _, ⟨_, fresh⟩, _⟩ := holds
  exact fresh (2, 2) (by decide +kernel) 2 (by decide) (by decide) (by decide +kernel)

end SyncEngine

end VeloChain
