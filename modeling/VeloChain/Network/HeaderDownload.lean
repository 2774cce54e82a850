import VeloChain.Lib.RequestTable
import VeloChain.Network.ImportSafety

/-! The phase of headers of a synchronization with honest peers.
What is below the highest number that the engine knows of is downloaded or on its way, so that
the polls go on where something is missing, in whatever order the answers come in.
-/

namespace VeloChain

open RequestTable

/-- The header of a number on a chain with the given hashes. -/
def honestHeader (hash : Nat → B256) (number : Nat) : ReceivedHeader :=
  (number, hash number, hash (number - 1))

/-- How a header is stored when it comes in. -/
def storedHeader (hash : Nat → B256) (number : Nat) : SyncedHeader :=
  { number
    hash := hash number
    parentHash := hash (number - 1)
    bodyDownloaded := false
    verified := false }

/-- Polls and complete answers to pending requests. -/
inductive HonestStep
  | pollHeaderRequests
  | pollBodyRequests
  | answerHeaders (requestId : Nat)
  | answerBodies (requestId : Nat)

namespace SyncEngine

variable (hash : Nat → B256)

/-- The engine after a step; only a pending request is answered. -/
def honestStep (engine : SyncEngine) : HonestStep → SyncEngine
  | .pollHeaderRequests => engine.pollHeaderRequests.2
  | .pollBodyRequests => engine.pollBodyRequests.2
  | .answerHeaders requestId =>
      match engine.headerRequests.lookup requestId with
      | none => engine
      | some request =>
          (engine.onHeadersReceived
            ((List.range' request.start request.count).map (honestHeader hash))).2
  | .answerBodies requestId =>
      match engine.bodyRequests.lookup requestId with
      | none => engine
      | some request => (engine.onBodiesReceived request.hashes).2

/-- A new engine after one status message. -/
def started (localHead : Nat) (config : SyncConfig) (peerId : String) (target : Nat)
    (bestHash : B256) : SyncEngine :=
  (new localHead config).onPeerStatus peerId target bestHash

/-- The number of downloaded bodies. -/
def downloadedBodies (engine : SyncEngine) : Nat :=
  (engine.headers.keys.filter (fun number =>
    (engine.headers.lookup number).any SyncedHeader.bodyDownloaded)).card

/-- The bodies that are pending are those of stored headers without one. -/
theorem mem_pendingBodies {engine : SyncEngine} {blockHash : B256}
    : blockHash ∈ engine.pendingBodies
      ↔ ∃ number header,
          engine.headers.lookup number = some header
          ∧ header.hash = blockHash
          ∧ header.bodyDownloaded = false := by
  unfold pendingBodies
  simp only [List.mem_map, List.mem_filter, FinMap.mem_values, Bool.not_eq_eq_eq_not,
    Bool.not_true]
  constructor
  · rintro ⟨header, ⟨⟨number, found⟩, missing⟩, isHash⟩
    exact ⟨number, header, found, isHash, missing⟩
  · rintro ⟨number, header, found, isHash, missing⟩
    exact ⟨header, ⟨⟨number, found⟩, missing⟩, isHash⟩

/-- Some request is pending. -/
def Waiting (engine : SyncEngine) : Prop :=
  engine.headerRequests.keys.card ≠ 0 ∨ engine.bodyRequests.keys.card ≠ 0

/-- A poll issues a request whose complete answer brings a new header or a new body. -/
def Proceeds (engine : SyncEngine) : Prop :=
  (∃ request ∈ engine.pollHeaderRequests.1,
      engine.headers.keys.card
        < (engine.pollHeaderRequests.2.honestStep hash
            (.answerHeaders request.1)).headers.keys.card)
  ∨ ∃ request ∈ engine.pollBodyRequests.1,
      engine.downloadedBodies
        < (engine.pollBodyRequests.2.honestStep hash (.answerBodies request.1)).downloadedBodies

/-- Until it verifies the engine waits or proceeds; when nothing is left to wait for it
verifies the blocks between head and target, and releases them in order.
-/
structure Completes (localHead target : Nat) (engine : SyncEngine) : Prop where
  progress : engine.state ≠ .verifying → engine.Waiting ∨ engine.Proceeds hash
  ends
    : ¬ engine.Waiting → engine.pollHeaderRequests.1 = [] → engine.pollBodyRequests.1 = [] →
        engine.state = .verifying
  verified
    : engine.state = .verifying →
        engine.verifyChain.1 = .rangeVerified (localHead + 1) target
        ∧ engine.verifyChain.2.drainImportReady.1
          = List.range' (localHead + 1) (target - localHead)

-----------------------------------------------------------------------------------------
-- Storing what comes in
-----------------------------------------------------------------------------------------

variable {hash}

/-- Storing honest headers fills the numbers that were free, by induction on the headers. -/
theorem lookup_storeHeaders (numbers : List Nat) (headers : FinMap Nat SyncedHeader)
    (number : Nat)
    : ((numbers.map (honestHeader hash)).foldl storeHeader headers).lookup number
      = (headers.lookup number).or
          (if number ∈ numbers then some (storedHeader hash number) else none) := by
  induction numbers generalizing headers with
  | nil => simp
  | cons first rest ih =>
      rw [List.map_cons, List.foldl_cons, ih]
      have stored
          : (storeHeader headers (honestHeader hash first)).lookup number
            = (headers.lookup number).or
                (if number = first then some (storedHeader hash number) else none) := by
        unfold storeHeader honestHeader
        simp only
        split
        next known =>
          by_cases here : number = first
          · subst here
            obtain ⟨header, found⟩ := Finmap.mem_iff.mp known
            simp [found]
          · simp [here]
        next fresh =>
          rw [FinMap.lookup_insert_eq]
          by_cases here : number = first
          · subst here
            simp [Finmap.lookup_eq_none.mpr fresh, storedHeader]
          · simp [here]
      rw [stored]
      by_cases here : number = first
      · subst here
        cases headers.lookup number <;> simp
      · simp [here]

-----------------------------------------------------------------------------------------
-- The phase of headers
-----------------------------------------------------------------------------------------

/-- The number is at most that of a downloaded header, or below the end of a pending request. -/
def Reaches (engine : SyncEngine) (number : Nat) : Prop :=
  (∃ top ∈ engine.headers, number ≤ top)
  ∨ ∃ id request,
      engine.headerRequests.lookup id = some request ∧ number < request.start + request.count

/-- The header of the number is downloaded or on its way. -/
def Held (engine : SyncEngine) (number : Nat) : Prop :=
  number ∈ engine.headers
  ∨ ∃ id request,
      engine.headerRequests.lookup id = some request
      ∧ request.start ≤ number
      ∧ number < request.start + request.count

/-- What holds of an engine with honest peers while it downloads headers. -/
structure HeaderPhase (hash : Nat → B256) (localHead last : Nat) (config : SyncConfig)
    (engine : SyncEngine) : Prop where
  state : engine.state = .downloadingHeaders
  atHead : engine.localHead = localHead
  aim : ∃ target, engine.target = some target ∧ target.bestBlock = last
  configured : engine.config = config
  noBodies : engine.bodyRequests.keys.card = 0
  noneReady : engine.importReady = []
  stored
    : ∀ number header, engine.headers.lookup number = some header →
        localHead < number ∧ number ≤ last ∧ header = storedHeader hash number
  requested
    : ∀ id request, engine.headerRequests.lookup id = some request →
        id < engine.nextRequestId
        ∧ localHead < request.start
        ∧ 0 < request.count
        ∧ request.start + request.count ≤ last + 1
  apart
    : ∀ id id' request request', engine.headerRequests.lookup id = some request →
        engine.headerRequests.lookup id' = some request' →
        request.start = request'.start → id = id'
  covered : ∀ number, localHead < number → engine.Reaches number → engine.Held number
  remaining : engine.headerRequests.keys.card = 0 → engine.headers.highest < last

/-- Where the next header request may start: everything below is downloaded or on its way, and
nothing is above.
-/
structure Frontier (localHead last : Nat) (engine : SyncEngine) (start : Nat) : Prop where
  above : localHead < start
  bounded : start ≤ last + 1
  requests
    : ∀ id request, engine.headerRequests.lookup id = some request →
        request.start + request.count ≤ start
  headers : ∀ number ∈ engine.headers, number ≤ start
  held : ∀ number, localHead < number → number < start → engine.Held number

theorem word_of_lt {n : Nat} (small : n < 2 ^ 64) : word n = n := Nat.mod_eq_of_lt small

variable {localHead last : Nat} {config : SyncConfig} {engine : SyncEngine}

/-- The engine with one more pending header request. -/
def withHeaderRequest (request : HeaderRequest) (engine : SyncEngine) : SyncEngine :=
  { engine with
    nextRequestId := engine.nextRequestId + 1
    headerRequests := engine.headerRequests.insert engine.nextRequestId request }

/-- What is pending stays pending under its id. -/
def KeepsRequests (before after : SyncEngine) : Prop :=
  ∀ id request, before.headerRequests.lookup id = some request →
    after.headerRequests.lookup id = some request

theorem keepsRequests_withHeaderRequest (ids : Below engine.nextRequestId engine.headerRequests)
    (request : HeaderRequest)
    : KeepsRequests engine (engine.withHeaderRequest request) := by
  intro id old lookup
  change (engine.headerRequests.insert engine.nextRequestId request).lookup id = _
  rw [FinMap.lookup_insert_eq, if_neg (Nat.ne_of_lt (ids.of_lookup lookup)), lookup]

theorem Held.withHeaderRequest {number : Nat} (held : engine.Held number)
    (ids : Below engine.nextRequestId engine.headerRequests) (request : HeaderRequest)
    : (engine.withHeaderRequest request).Held number := by
  rcases held with known | ⟨id, old, lookup, bounds⟩
  · exact Or.inl known
  · exact Or.inr ⟨id, old, keepsRequests_withHeaderRequest ids request id old lookup, bounds⟩

/-- A request from where everything before is held extends what is held up to its end. -/
theorem held_withHeaderRequest (ids : Below engine.nextRequestId engine.headerRequests)
    {request : HeaderRequest}
    (before : ∀ number, localHead < number → number < request.start → engine.Held number)
    : ∀ number, localHead < number → number < request.start + request.count →
        (engine.withHeaderRequest request).Held number := by
  intro number above below
  by_cases earlier : number < request.start
  · exact (before number above earlier).withHeaderRequest ids request
  · exact Or.inr ⟨_, request, Finmap.lookup_insert _, Nat.le_of_not_lt earlier, below⟩

/-- Such a request leaves everything held that is reached. -/
theorem covered_withHeaderRequest (ids : Below engine.nextRequestId engine.headerRequests)
    (covered : ∀ number, localHead < number → engine.Reaches number → engine.Held number)
    {request : HeaderRequest}
    (before : ∀ number, localHead < number → number < request.start → engine.Held number)
    : ∀ number, localHead < number → (engine.withHeaderRequest request).Reaches number →
        (engine.withHeaderRequest request).Held number := by
  intro number above reaches
  rcases reaches with stored | ⟨id, found, lookup, below⟩
  · exact (covered number above (Or.inl stored)).withHeaderRequest ids request
  · change (engine.headerRequests.insert engine.nextRequestId request).lookup id = _ at lookup
    rw [FinMap.lookup_insert_eq] at lookup
    split at lookup
    next =>
      obtain rfl := Option.some.inj lookup
      exact held_withHeaderRequest ids before number above below
    next =>
      exact (covered number above (Or.inr ⟨id, found, lookup, below⟩)).withHeaderRequest ids
        request

theorem HeaderPhase.headerIds (phase : HeaderPhase hash localHead last config engine)
    : Below engine.nextRequestId engine.headerRequests := by
  intro id member
  obtain ⟨request, lookup⟩ := Finmap.mem_iff.mp member
  exact (phase.requested id request lookup).1

/-- A request from the frontier on keeps the phase, and its end is the new frontier. -/
theorem HeaderPhase.withHeaderRequest (phase : HeaderPhase hash localHead last config engine)
    {request : HeaderRequest} (frontier : Frontier localHead last engine request.start)
    (some_ : 0 < request.count) (fits : request.start + request.count ≤ last + 1)
    : HeaderPhase hash localHead last config (engine.withHeaderRequest request)
      ∧ Frontier localHead last (engine.withHeaderRequest request)
          (request.start + request.count) := by
  have cases {id : Nat} {found : HeaderRequest}
      (lookup
        : (engine.headerRequests.insert engine.nextRequestId request).lookup id = some found)
      : id = engine.nextRequestId ∧ found = request
        ∨ engine.headerRequests.lookup id = some found := by
    rw [FinMap.lookup_insert_eq] at lookup
    split at lookup
    next here => exact Or.inl ⟨here, (Option.some.inj lookup).symm⟩
    next => exact Or.inr lookup
  have own
      : (engine.headerRequests.insert engine.nextRequestId request).lookup engine.nextRequestId
        = some request :=
    Finmap.lookup_insert _
  have held := held_withHeaderRequest phase.headerIds frontier.held
  constructor
  · refine
      { state := phase.state, atHead := phase.atHead, aim := phase.aim
        configured := phase.configured, noBodies := phase.noBodies, noneReady := phase.noneReady
        stored := phase.stored, requested := ?_, apart := ?_, covered := ?_, remaining := ?_ }
    · intro id found lookup
      rcases cases lookup with ⟨rfl, rfl⟩ | old
      · exact ⟨Nat.lt_succ_self _, frontier.above, some_, fits⟩
      · obtain ⟨fresh, bounds⟩ := phase.requested id found old
        exact ⟨Nat.lt_succ_of_lt fresh, bounds⟩
    · intro id id' found found' lookup lookup' sameStart
      rcases cases lookup with ⟨rfl, rfl⟩ | old
      · rcases cases lookup' with ⟨rfl, _⟩ | old'
        · rfl
        · have bounds := phase.requested id' found' old'
          have ends := frontier.requests id' found' old'
          omega
      · rcases cases lookup' with ⟨rfl, rfl⟩ | old'
        · have bounds := phase.requested id found old
          have ends := frontier.requests id found old
          omega
        · exact phase.apart id id' found found' old old' sameStart
    · exact covered_withHeaderRequest phase.headerIds phase.covered frontier.held
    · intro none
      have := FinMap.card_eq_zero_iff.mp none engine.nextRequestId
      exact absurd (own.symm.trans this) nofun
  · refine ⟨Nat.lt_of_lt_of_le frontier.above (Nat.le_add_right _ _), fits, ?_, ?_, held⟩
    · intro id found lookup
      rcases cases lookup with ⟨_, rfl⟩ | old
      · exact Nat.le_refl _
      · exact Nat.le_trans (frontier.requests id found old) (Nat.le_add_right _ _)
    · exact fun number known =>
        Nat.le_trans (frontier.headers number known) (Nat.le_add_right _ _)

/-- The request that the next turn of the loop issues. -/
def nextHeaderRequest (target : SyncTarget) (start : Nat) (engine : SyncEngine)
    : HeaderRequest :=
  { start
    count := min engine.config.headersPerRequest (word (target.bestBlock - start + 1))
    peerId := target.peerId
    createdTick := engine.currentTick
    retries := 0 }

/-- One turn of the loop. -/
theorem issueHeaderRequests_succ {target : SyncTarget} {start : Nat}
    (below : start ≤ target.bestBlock) (more : Nat) (engine : SyncEngine)
    : ∃ rest,
        (issueHeaderRequests target (more + 1) start engine).1
          = (engine.nextRequestId, start, (nextHeaderRequest target start engine).count,
              some target.peerId) :: rest
        ∧ (issueHeaderRequests target (more + 1) start engine).2
          = (issueHeaderRequests target more
              (word (start + (nextHeaderRequest target start engine).count))
              (engine.withHeaderRequest (nextHeaderRequest target start engine))).2 := by
  rw [issueHeaderRequests, if_neg (Nat.not_lt.mpr below)]
  exact ⟨_, rfl, rfl⟩

/-- The next request ends at the target at the latest, and at the first number only when that
is the target.
-/
theorem nextHeaderRequest_bounds {target : SyncTarget} {start : Nat}
    (small : target.bestBlock < 2 ^ 64 - 1) (above : 0 < start) (below : start ≤ target.bestBlock)
    (sized : 2 ≤ engine.config.headersPerRequest)
    : 0 < (nextHeaderRequest target start engine).count
      ∧ start + (nextHeaderRequest target start engine).count ≤ target.bestBlock + 1
      ∧ (start < target.bestBlock → 2 ≤ (nextHeaderRequest target start engine).count) := by
  have fits : target.bestBlock - start + 1 < 2 ^ 64 := by omega
  unfold nextHeaderRequest
  simp only [word_of_lt fits]
  omega

/-- The requests of a loop keep the phase, by induction on the turns. -/
theorem HeaderPhase.issueHeaderRequests (small : last < 2 ^ 64 - 1)
    (sized : 2 ≤ config.headersPerRequest) (more : Nat) {target : SyncTarget}
    (isTarget : target.bestBlock = last) {start : Nat} {engine : SyncEngine}
    (phase : HeaderPhase hash localHead last config engine)
    (frontier : Frontier localHead last engine start)
    : HeaderPhase hash localHead last config
        (SyncEngine.issueHeaderRequests target more start engine).2
      ∧ KeepsRequests engine (SyncEngine.issueHeaderRequests target more start engine).2 := by
  induction more generalizing start engine with
  | zero => exact ⟨phase, fun _ _ lookup => lookup⟩
  | succ more ih =>
      by_cases below : start ≤ target.bestBlock
      · obtain ⟨_, _, turn⟩ := issueHeaderRequests_succ below more engine
        have bounds :=
          @nextHeaderRequest_bounds engine target start (isTarget ▸ small)
            (Nat.lt_of_le_of_lt (Nat.zero_le _) frontier.above) below
            (phase.configured ▸ sized)
        obtain ⟨phase', frontier'⟩ :=
          @HeaderPhase.withHeaderRequest hash localHead last config engine phase
            (nextHeaderRequest target start engine) frontier bounds.1 (isTarget ▸ bounds.2.1)
        have inRange : start + (nextHeaderRequest target start engine).count < 2 ^ 64 := by
          omega
        rw [turn, word_of_lt inRange]
        obtain ⟨phase'', keeps⟩ := ih phase' frontier'
        exact ⟨phase'',
          fun id old lookup =>
            keeps id old (keepsRequests_withHeaderRequest phase.headerIds _ id old lookup)⟩
      · rw [SyncEngine.issueHeaderRequests, if_pos (Nat.not_le.mp below)]
        exact ⟨phase, fun _ _ lookup => lookup⟩

/-- Where a poll starts. -/
def pollStart (engine : SyncEngine) : Nat :=
  max (max engine.highestRequested engine.headers.highest) (word (engine.localHead + 1))

/-- Where nothing is pending, nothing is requested. -/
theorem highestRequested_of_none (none : engine.headerRequests.keys.card = 0)
    : engine.highestRequested = 0 := by
  have nothing : engine.headerRequests.values = [] := by
    apply List.eq_nil_iff_forall_not_mem.mpr
    intro request member
    obtain ⟨id, lookup⟩ := FinMap.mem_values.mp member
    exact absurd ((FinMap.card_eq_zero_iff.mp none id).symm.trans lookup) nofun
  unfold highestRequested
  rw [nothing]
  rfl

/-- The highest requested number is zero or where some pending request ends. -/
theorem highestRequested_cases (engine : SyncEngine)
    : engine.highestRequested = 0
      ∨ ∃ id request,
          engine.headerRequests.lookup id = some request
          ∧ word (request.start + request.count) = engine.highestRequested := by
  obtain ⟨attained, _, _⟩ :=
    FinMap.foldl_max
      (engine.headerRequests.values.map (fun request => word (request.start + request.count))) 0
  refine attained.imp id (fun member => ?_)
  obtain ⟨request, isValue, same⟩ := List.mem_map.mp member
  obtain ⟨id, lookup⟩ := FinMap.mem_values.mp isValue
  exact ⟨id, request, lookup, same⟩

/-- Every pending request ends at the highest requested number or before it. -/
theorem le_highestRequested {id : Nat} {request : HeaderRequest}
    (lookup : engine.headerRequests.lookup id = some request)
    : word (request.start + request.count) ≤ engine.highestRequested := by
  obtain ⟨_, _, greatest⟩ :=
    FinMap.foldl_max
      (engine.headerRequests.values.map (fun request => word (request.start + request.count))) 0
  exact greatest _ (List.mem_map.mpr ⟨request, FinMap.mem_values.mpr ⟨id, lookup⟩, rfl⟩)

/-- A poll in the phase of headers starts at the frontier. -/
theorem HeaderPhase.frontier (phase : HeaderPhase hash localHead last config engine)
    (before : localHead < last) (small : last < 2 ^ 64 - 1)
    : Frontier localHead last engine engine.pollStart := by
  have first : word (engine.localHead + 1) = localHead + 1 := by
    rw [phase.atHead, word_of_lt (by omega)]
  have ends {id : Nat} {request : HeaderRequest}
      (lookup : engine.headerRequests.lookup id = some request)
      : word (request.start + request.count) = request.start + request.count := by
    have bounds := phase.requested id request lookup
    exact word_of_lt (by omega)
  have requested
      : engine.highestRequested = 0
        ∨ ∃ id request,
            engine.headerRequests.lookup id = some request
            ∧ request.start + request.count = engine.highestRequested := by
    refine engine.highestRequested_cases.imp_right ?_
    rintro ⟨id, request, lookup, same⟩
    exact ⟨id, request, lookup, by rw [← same, ends lookup]⟩
  have downloaded := engine.headers.highest_eq_zero_or_mem
  unfold pollStart
  rw [first]
  refine ⟨by omega, ?_, ?_, ?_, ?_⟩
  · have requestedBound : engine.highestRequested ≤ last + 1 := by
      rcases requested with none | ⟨id, request, lookup, same⟩
      · omega
      · have bounds := phase.requested id request lookup
        omega
    have downloadedBound : engine.headers.highest ≤ last + 1 := by
      rcases downloaded with none | member
      · omega
      · obtain ⟨header, lookup⟩ := Finmap.mem_iff.mp member
        have bounds := phase.stored _ header lookup
        omega
    omega
  · intro id request lookup
    have := le_highestRequested lookup
    rw [ends lookup] at this
    omega
  · intro number member
    have := FinMap.le_highest member
    omega
  · intro number higher below
    apply phase.covered number higher
    by_cases reached : number < engine.highestRequested
    · rcases requested with none | ⟨id, request, lookup, same⟩
      · omega
      · exact Or.inr ⟨id, request, lookup, by omega⟩
    · rcases downloaded with none | member
      · omega
      · exact Or.inl ⟨_, member, by omega⟩

/-- A poll keeps the phase of headers. -/
theorem HeaderPhase.pollHeaderRequests (phase : HeaderPhase hash localHead last config engine)
    (before : localHead < last) (small : last < 2 ^ 64 - 1)
    (sized : 2 ≤ config.headersPerRequest)
    : HeaderPhase hash localHead last config engine.pollHeaderRequests.2 := by
  obtain ⟨target, isSome, isTarget⟩ := phase.aim
  unfold SyncEngine.pollHeaderRequests
  rw [if_neg (not_not.mpr phase.state), isSome]
  exact (phase.issueHeaderRequests small sized _ isTarget (phase.frontier before small)).1

-----------------------------------------------------------------------------------------
-- Answers with headers
-----------------------------------------------------------------------------------------

/-- What holds of an engine with honest peers while it downloads bodies. -/
structure BodyPhase (hash : Nat → B256) (localHead last : Nat) (config : SyncConfig)
    (engine : SyncEngine) : Prop where
  state : engine.state = .downloadingBodies
  configured : engine.config = config
  range : ∀ number, number ∈ engine.headers ↔ localHead < number ∧ number ≤ last
  stored
    : ∀ number header, engine.headers.lookup number = some header →
        header.hash = hash number ∧ header.parentHash = hash (number - 1)
  noHeaders : engine.headerRequests.keys.card = 0
  noneReady : engine.importReady = []
  remaining
    : engine.bodyRequests.keys.card = 0 →
        ∃ number header,
          engine.headers.lookup number = some header ∧ header.bodyDownloaded = false

/-- The stored headers after the complete answer to a request. -/
def answered (hash : Nat → B256) (request : HeaderRequest) (headers : FinMap Nat SyncedHeader)
    : FinMap Nat SyncedHeader :=
  ((List.range' request.start request.count).map (honestHeader hash)).foldl storeHeader headers

theorem lookup_answered (request : HeaderRequest) (headers : FinMap Nat SyncedHeader)
    (number : Nat)
    : (answered hash request headers).lookup number
      = (headers.lookup number).or
          (if request.start ≤ number ∧ number < request.start + request.count then
            some (storedHeader hash number)
          else none) := by
  unfold answered
  rw [lookup_storeHeaders]
  simp only [List.mem_range'_1]

theorem mem_answered {request : HeaderRequest} {headers : FinMap Nat SyncedHeader}
    {number : Nat}
    : number ∈ answered hash request headers
      ↔ number ∈ headers
        ∨ request.start ≤ number ∧ number < request.start + request.count := by
  rw [← Finmap.lookup_isSome, ← Finmap.lookup_isSome, lookup_answered, Option.isSome_or]
  split
  next inside => simp [inside]
  next outside => simp [outside]

/-- The engine after the complete answer to a pending request: the headers are stored, the
request is gone, and the phase is over when the target is there and nothing is pending.
-/
theorem honestStep_answerHeaders {id : Nat} {request : HeaderRequest}
    (lookup : engine.headerRequests.lookup id = some request) (some_ : 0 < request.count)
    {target : SyncTarget} (isTarget : engine.target = some target)
    : engine.honestStep hash (.answerHeaders id)
      = { engine with
          headers := answered hash request engine.headers
          headerRequests := engine.headerRequests.retain (fun r => r.start ≠ request.start)
          state :=
            if (answered hash request engine.headers).highest ≥ target.bestBlock
                ∧ (engine.headerRequests.retain (fun r => r.start ≠ request.start)).keys.card = 0
            then .downloadingBodies
            else engine.state } := by
  obtain ⟨count, isCount⟩ := Nat.exists_eq_succ_of_ne_zero (Nat.ne_of_gt some_)
  have first
      : (List.range' request.start request.count).map (honestHeader hash)
        = honestHeader hash request.start
          :: (List.range' (request.start + 1) count).map (honestHeader hash) := by
    rw [isCount, List.range'_succ, List.map_cons]
  unfold honestStep answered
  simp only [lookup]
  rw [first]
  simp only [onHeadersReceived, isTarget, honestHeader]
  rfl

/-- What is pending after an answer was pending before and starts elsewhere. -/
theorem lookup_unanswered {id : Nat} {request other : HeaderRequest}
    : (engine.headerRequests.retain (fun r => r.start ≠ request.start)).lookup id = some other
      ↔ engine.headerRequests.lookup id = some other ∧ other.start ≠ request.start := by
  rw [FinMap.lookup_retain, Option.filter_eq_some_iff]
  simp only [decide_eq_true_eq]

section Answer

variable (phase : HeaderPhase hash localHead last config engine) {id : Nat}
  {request : HeaderRequest} (lookup : engine.headerRequests.lookup id = some request)

include phase lookup

theorem HeaderPhase.stored_answered {number : Nat} {header : SyncedHeader}
    (found : (answered hash request engine.headers).lookup number = some header)
    : localHead < number ∧ number ≤ last ∧ header = storedHeader hash number := by
  obtain ⟨_, higher, some_, fits⟩ := phase.requested id request lookup
  rw [lookup_answered] at found
  rcases Option.or_eq_some_iff.mp found with known | ⟨_, new⟩
  · exact phase.stored number header known
  · split at new
    next inside => exact ⟨by omega, by omega, (Option.some.inj new).symm⟩
    next => exact absurd new nofun

/-- What was held is held after an answer, since only the answered request starts where it
starts.
-/
theorem HeaderPhase.covered_answered {number : Nat} (above : localHead < number)
    (reaches
      : (∃ top ∈ answered hash request engine.headers, number ≤ top)
        ∨ ∃ id' request',
            (engine.headerRequests.retain (fun r => r.start ≠ request.start)).lookup id'
              = some request'
            ∧ number < request'.start + request'.count)
    : number ∈ answered hash request engine.headers
      ∨ ∃ id' request',
          (engine.headerRequests.retain (fun r => r.start ≠ request.start)).lookup id'
            = some request'
          ∧ request'.start ≤ number
          ∧ number < request'.start + request'.count := by
  have held : engine.Held number := by
    apply phase.covered number above
    rcases reaches with ⟨top, member, below⟩ | ⟨id', request', found, below⟩
    · rcases mem_answered.mp member with known | new
      · exact Or.inl ⟨top, known, below⟩
      · exact Or.inr ⟨id, request, lookup, by omega⟩
    · exact Or.inr ⟨id', request', (lookup_unanswered.mp found).1, below⟩
  rcases held with known | ⟨id', request', found, bounds⟩
  · exact Or.inl (mem_answered.mpr (Or.inl known))
  · by_cases same : request'.start = request.start
    · obtain rfl := phase.apart id' id request' request found lookup same
      obtain rfl := Option.some.inj (lookup.symm.trans found)
      exact Or.inl (mem_answered.mpr (Or.inr bounds))
    · exact Or.inr ⟨id', request', lookup_unanswered.mpr ⟨found, same⟩, bounds⟩

end Answer

/-- An answer in the phase of headers keeps the phase or begins the one of bodies. -/
theorem HeaderPhase.answerHeaders (phase : HeaderPhase hash localHead last config engine)
    {id : Nat} {request : HeaderRequest}
    (lookup : engine.headerRequests.lookup id = some request)
    : HeaderPhase hash localHead last config (engine.honestStep hash (.answerHeaders id))
      ∨ BodyPhase hash localHead last config (engine.honestStep hash (.answerHeaders id))
        ∧ (engine.honestStep hash (.answerHeaders id)).bodyRequests.keys.card = 0 := by
  obtain ⟨target, isTarget, aim⟩ := phase.aim
  obtain ⟨_, _, some_, _⟩ := phase.requested id request lookup
  rw [honestStep_answerHeaders lookup some_ isTarget]
  have stored (number : Nat) (header : SyncedHeader) :=
    @HeaderPhase.stored_answered _ _ _ _ _ phase _ _ lookup number header
  have covered (number : Nat) :=
    @HeaderPhase.covered_answered _ _ _ _ _ phase _ _ lookup number
  split
  next past =>
    right
    obtain ⟨high, none⟩ := past
    have top : (answered hash request engine.headers).highest
        ∈ answered hash request engine.headers := by
      rcases FinMap.highest_eq_zero_or_mem (answered hash request engine.headers)
        with zero | member
      · omega
      · exact member
    refine ⟨
      { state := rfl, configured := phase.configured, range := fun number => ?_
        stored := fun number header found => ?_, noHeaders := none
        noneReady := phase.noneReady, remaining := fun _ => ?_ }, phase.noBodies⟩
    · constructor
      · intro member
        obtain ⟨header, found⟩ := Finmap.mem_iff.mp member
        obtain ⟨above, below, _⟩ := stored number header found
        exact ⟨above, below⟩
      · rintro ⟨above, below⟩
        rcases covered number above (Or.inl ⟨_, top, by omega⟩)
          with member | ⟨id', request', found, _⟩
        · exact member
        · exact absurd ((FinMap.card_eq_zero_iff.mp none id').symm.trans found) nofun
    · obtain ⟨_, _, rfl⟩ := stored number header found
      exact ⟨rfl, rfl⟩
    · obtain ⟨header, found⟩ := Finmap.mem_iff.mp top
      obtain ⟨_, _, rfl⟩ := stored _ header found
      exact ⟨_, _, found, rfl⟩
  next going =>
    left
    refine
      { state := phase.state, atHead := phase.atHead, aim := phase.aim
        configured := phase.configured, noBodies := phase.noBodies
        noneReady := phase.noneReady, stored, requested := fun id' request' found => ?_
        apart := fun id' id'' request' request'' found found' => ?_, covered
        remaining := fun none => ?_ }
    · exact phase.requested id' request' (lookup_unanswered.mp found).1
    · exact phase.apart id' id'' request' request'' (lookup_unanswered.mp found).1
        (lookup_unanswered.mp found').1
    · rw [← aim]
      exact Nat.not_le.mp fun reached => going ⟨reached, none⟩

/-- With nothing pending in the phase of headers a poll issues a request whose answer brings a
new header: it starts with the highest known number at the lowest, but ends after it.
-/
theorem HeaderPhase.proceeds (phase : HeaderPhase hash localHead last config engine)
    (before : localHead < last) (small : last < 2 ^ 64 - 1)
    (sized : 2 ≤ config.headersPerRequest) (slots : 1 ≤ config.maxHeaderRequests)
    (none : engine.headerRequests.keys.card = 0)
    : ∃ request ∈ engine.pollHeaderRequests.1,
        (∃ found, engine.pollHeaderRequests.2.headerRequests.lookup request.1 = some found)
        ∧ engine.headers.keys.card
          < (engine.pollHeaderRequests.2.honestStep hash
              (.answerHeaders request.1)).headers.keys.card := by
  obtain ⟨target, isSome, isTarget⟩ := phase.aim
  have frontier := phase.frontier before small
  have high := phase.remaining none
  have start : engine.pollStart = max engine.headers.highest (localHead + 1) := by
    unfold pollStart
    rw [highestRequested_of_none none, phase.atHead,
      word_of_lt (by omega : localHead + 1 < 2 ^ 64), Nat.zero_max]
  have below : engine.pollStart ≤ target.bestBlock := by omega
  have bounds :=
    @nextHeaderRequest_bounds engine target engine.pollStart (isTarget ▸ small) (by omega) below
      (phase.configured ▸ sized)
  obtain ⟨more, isMore⟩ : ∃ more, engine.config.maxHeaderRequests = more + 1 :=
    Nat.exists_eq_succ_of_ne_zero (Nat.ne_of_gt (phase.configured ▸ slots))
  have polled
      : engine.pollHeaderRequests
        = SyncEngine.issueHeaderRequests target (more + 1) engine.pollStart engine := by
    unfold SyncEngine.pollHeaderRequests pollStart
    rw [if_neg (not_not.mpr phase.state), isSome]
    simp only [none, Nat.sub_zero, isMore]
  obtain ⟨rest, first, turn⟩ := issueHeaderRequests_succ below more engine
  obtain ⟨phase', frontier'⟩
      : HeaderPhase hash localHead last config
          (engine.withHeaderRequest (nextHeaderRequest target engine.pollStart engine))
        ∧ Frontier localHead last
            (engine.withHeaderRequest (nextHeaderRequest target engine.pollStart engine))
            (engine.pollStart + (nextHeaderRequest target engine.pollStart engine).count) :=
    @HeaderPhase.withHeaderRequest hash localHead last config engine phase
      (nextHeaderRequest target engine.pollStart engine) frontier bounds.1
      (isTarget ▸ bounds.2.1)
  rw [polled, first, turn, word_of_lt (by omega)]
  obtain ⟨_, keeps⟩ := phase'.issueHeaderRequests small sized more isTarget frontier'
  have pending := keeps engine.nextRequestId _ (Finmap.lookup_insert _)
  obtain ⟨target', isSome', _⟩ :=
    (phase'.issueHeaderRequests small sized more isTarget frontier').1.aim
  refine ⟨_, List.mem_cons_self, ⟨_, pending⟩, ?_⟩
  simp only
  rw [honestStep_answerHeaders pending bounds.1 isSome']
  have sameHeaders (more start : Nat) (engine : SyncEngine)
      : (SyncEngine.issueHeaderRequests target more start engine).2.headers = engine.headers := by
    obtain ⟨_, _, frame⟩ := issueHeaderRequests_frame target more start engine
    rw [frame]
  rw [sameHeaders]
  -- the last number of the answer is above all known ones
  apply @FinMap.card_lt_card _ _ _ (fun number known => mem_answered.mpr (Or.inl known))
    (engine.pollStart + (nextHeaderRequest target engine.pollStart engine).count - 1)
  · apply mem_answered.mpr
    right
    change engine.pollStart ≤ _ ∧ _ < engine.pollStart + _
    omega
  · intro known
    have := FinMap.le_highest known
    change _ ≤ engine.headers.highest at this
    omega

end SyncEngine

end VeloChain
