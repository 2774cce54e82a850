import Mathlib.Order.Interval.Finset.Nat
import VeloChain.Network.HeaderDownload

/-! Synchronization with honest peers.
After its headers the engine downloads their bodies, and then verifies the chain. It gets
there in every run, unless a poll never asks for a body.
-/

namespace VeloChain

namespace SyncEngine

variable {hash : Nat → B256} {localHead last : Nat} {config : SyncConfig} {engine : SyncEngine}

-----------------------------------------------------------------------------------------
-- The phase of bodies
-----------------------------------------------------------------------------------------

/-- Issuing body requests drops none that is issued or pending. -/
theorem issueBodyRequests_keeps (pieces : List (List B256))
    (issued : List (Nat × List B256 × Option String) × SyncEngine)
    : (∀ request ∈ issued.1, request ∈ (pieces.foldl issueBodyRequest issued).1)
      ∧ (∀ id ∈ issued.2.bodyRequests,
          id ∈ (pieces.foldl issueBodyRequest issued).2.bodyRequests)
      ∧ ∀ id < issued.2.nextRequestId,
          (pieces.foldl issueBodyRequest issued).2.bodyRequests.lookup id
          = issued.2.bodyRequests.lookup id := by
  induction pieces generalizing issued with
  | nil => exact ⟨fun _ member => member, fun _ member => member, fun _ _ => rfl⟩
  | cons hashes rest ih =>
      obtain ⟨requests, pending, lookups⟩ := ih (issueBodyRequest issued hashes)
      refine ⟨fun request member => requests request (List.mem_append_left _ member),
        fun id member => pending id (Finmap.mem_insert.mpr (Or.inr member)), fun id fresh => ?_⟩
      refine (lookups id (Nat.lt_succ_of_lt fresh)).trans ?_
      exact Finmap.lookup_insert_of_ne _ (Nat.ne_of_lt fresh)

/-- A poll keeps the phase of bodies. -/
theorem BodyPhase.pollBodyRequests (phase : BodyPhase hash localHead last config engine)
    : BodyPhase hash localHead last config engine.pollBodyRequests.2 := by
  have pending (id : Nat) (member : id ∈ engine.bodyRequests)
      : id ∈ engine.pollBodyRequests.2.bodyRequests := by
    unfold SyncEngine.pollBodyRequests
    rw [if_neg (not_not.mpr phase.state)]
    exact (issueBodyRequests_keeps _ _).2.1 id member
  obtain ⟨nextRequestId, bodyRequests, frame⟩ := engine.pollBodyRequests_frame
  rw [frame] at pending ⊢
  refine
    { state := phase.state, configured := phase.configured, range := phase.range
      stored := phase.stored, noHeaders := phase.noHeaders, noneReady := phase.noneReady
      remaining := fun none => phase.remaining ?_ }
  apply FinMap.card_eq_zero_iff.mpr
  intro id
  apply Finmap.lookup_eq_none.mpr
  intro member
  exact Finmap.lookup_eq_none.mp (FinMap.card_eq_zero_iff.mp none id) (pending id member)

/-- All headers and bodies are there, and nothing is pending. -/
structure DonePhase (hash : Nat → B256) (localHead last : Nat) (engine : SyncEngine) : Prop where
  state : engine.state = .verifying
  range : ∀ number, number ∈ engine.headers ↔ localHead < number ∧ number ≤ last
  stored
    : ∀ number header, engine.headers.lookup number = some header →
        header.hash = hash number ∧ header.parentHash = hash (number - 1)
  noHeaders : engine.headerRequests.keys.card = 0
  noBodies : engine.bodyRequests.keys.card = 0
  noneReady : engine.importReady = []

/-- The stored headers after the complete answer to a body request. -/
def embodied (hashes : List B256) (headers : FinMap Nat SyncedHeader)
    : FinMap Nat SyncedHeader :=
  (hashes.foldl matchBody (0, headers)).2

theorem keepsHeaders_embodied (hashes : List B256) (headers : FinMap Nat SyncedHeader)
    : KeepsHeaders headers (embodied hashes headers) :=
  keepsHeaders_foldl Prod.snd keepsHeaders_matchBody hashes (0, headers)

/-- Bodies bring no header. -/
theorem mem_embodied {hashes : List B256} {headers : FinMap Nat SyncedHeader} {number : Nat}
    : number ∈ embodied hashes headers ↔ number ∈ headers := by
  unfold embodied
  generalize 0 = matched
  induction hashes generalizing matched headers with
  | nil => rfl
  | cons hash rest ih =>
      rw [List.foldl_cons]
      refine (@ih (matchBody (matched, headers) hash).2 _).trans ?_
      unfold matchBody
      split
      next => rfl
      next => exact FinMap.mem_modify

/-- A stored header keeps its links when bodies come in. -/
theorem exists_of_embodied {hashes : List B256} {headers : FinMap Nat SyncedHeader}
    {number : Nat} {header : SyncedHeader}
    (found : (embodied hashes headers).lookup number = some header)
    : ∃ before, headers.lookup number = some before
      ∧ header.hash = before.hash
      ∧ header.parentHash = before.parentHash := by
  obtain ⟨before, known⟩ :=
    Finmap.mem_iff.mp (mem_embodied.mp (Finmap.mem_of_lookup_eq_some found))
  obtain ⟨after, found', hash, parentHash, _⟩ :=
    keepsHeaders_embodied hashes headers number _ known
  obtain rfl := Option.some.inj (found.symm.trans found')
  exact ⟨before, known, hash, parentHash⟩

theorem honestStep_answerBodies {id : Nat} {request : BodyRequest}
    (lookup : engine.bodyRequests.lookup id = some request)
    : engine.honestStep hash (.answerBodies id)
      = { engine with
          headers := embodied request.hashes engine.headers
          bodyRequests :=
            engine.bodyRequests.retain (fun r => !r.hashes.all (· ∈ request.hashes))
          state :=
            if (embodied request.hashes engine.headers).values.all SyncedHeader.bodyDownloaded
                ∧ (engine.bodyRequests.retain
                    (fun r => !r.hashes.all (· ∈ request.hashes))).keys.card = 0
                ∧ (embodied request.hashes engine.headers).keys.card ≠ 0
            then .verifying
            else engine.state } := by
  unfold honestStep
  simp only [lookup]
  rfl

/-- An answer in the phase of bodies keeps the phase or is the last one. -/
theorem BodyPhase.answerBodies (phase : BodyPhase hash localHead last config engine)
    (before : localHead < last) {id : Nat} {request : BodyRequest}
    (lookup : engine.bodyRequests.lookup id = some request)
    : BodyPhase hash localHead last config (engine.honestStep hash (.answerBodies id))
      ∨ DonePhase hash localHead last (engine.honestStep hash (.answerBodies id)) := by
  rw [honestStep_answerBodies lookup]
  have range (number : Nat)
      : number ∈ embodied request.hashes engine.headers ↔ localHead < number ∧ number ≤ last :=
    mem_embodied.trans (phase.range number)
  have stored (number : Nat) (header : SyncedHeader)
      (found : (embodied request.hashes engine.headers).lookup number = some header)
      : header.hash = hash number ∧ header.parentHash = hash (number - 1) := by
    obtain ⟨before, known, sameHash, sameParent⟩ := exists_of_embodied found
    rw [sameHash, sameParent]
    exact phase.stored number before known
  split
  next past =>
    exact Or.inr
      { state := rfl, range, stored, noHeaders := phase.noHeaders, noBodies := past.2.1
        noneReady := phase.noneReady }
  next going =>
    refine Or.inl
      { state := phase.state, configured := phase.configured, range, stored
        noHeaders := phase.noHeaders, noneReady := phase.noneReady, remaining := fun none => ?_ }
    by_contra complete
    apply going
    refine ⟨List.all_eq_true.mpr ?_, none, ?_⟩
    · intro header member
      obtain ⟨number, found⟩ := FinMap.mem_values.mp member
      cases body : header.bodyDownloaded with
      | true => rfl
      | false => exact absurd ⟨number, header, found, body⟩ complete
    · intro empty
      have top := (range last).mpr ⟨before, Nat.le_refl last⟩
      exact Finmap.lookup_eq_none.mp (FinMap.card_eq_zero_iff.mp empty last) top

/-- A body for a hash that is awaited brings a number its body. -/
theorem exists_body_of_awaiting {headers : FinMap Nat SyncedHeader} {hash : B256} {number : Nat}
    {header : SyncedHeader} (found : headers.lookup number = some header)
    (isHash : header.hash = hash) (missing : header.bodyDownloaded = false)
    (hashes : List B256)
    : ∃ first header header',
        headers.lookup first = some header
        ∧ header.bodyDownloaded = false
        ∧ (embodied (hash :: hashes) headers).lookup first = some header'
        ∧ header'.bodyDownloaded = true := by
  cases awaited : awaiting headers hash with
  | none =>
      have none := List.find?_eq_none.mp awaited number
        (FinMap.mem_numbers.mpr (Finmap.mem_of_lookup_eq_some found))
      simp [found, isHash, missing] at none
  | some first =>
      obtain ⟨old, isOld, noBody⟩
          : ∃ old, headers.lookup first = some old ∧ old.bodyDownloaded = false := by
        have isAwaited := List.find?_some awaited
        cases isOld : headers.lookup first with
        | none => simp [isOld] at isAwaited
        | some old =>
            simp only [isOld, Option.any_some, decide_eq_true_eq, Bool.not_eq_eq_eq_not,
              Bool.not_true] at isAwaited
            exact ⟨old, rfl, isAwaited.2⟩
      have new
          : (matchBody (0, headers) hash).2.lookup first
            = some { old with bodyDownloaded := true } := by
        unfold matchBody
        rw [awaited]
        simp only [FinMap.lookup_modify, if_true, isOld, Option.map_some]
      obtain ⟨last, found', _, _, body⟩ :=
        keepsHeaders_foldl Prod.snd keepsHeaders_matchBody hashes (matchBody (0, headers) hash)
          first _ new
      exact ⟨first, old, last, isOld, noBody, found', body rfl⟩

/-- Bodies of which one is awaited raise the number of those downloaded. -/
theorem downloadedBodies_lt {after : SyncEngine} {number : Nat} {header : SyncedHeader}
    (found : engine.headers.lookup number = some header)
    (missing : header.bodyDownloaded = false) (hashes : List B256)
    (received : after.headers = embodied (header.hash :: hashes) engine.headers)
    : engine.downloadedBodies < after.downloadedBodies := by
  obtain ⟨lowest, before, now, isBefore, noBody, isNow, body⟩ :=
    exists_body_of_awaiting found rfl missing hashes
  unfold downloadedBodies
  rw [received]
  apply Finset.card_lt_card
  rw [Finset.ssubset_iff_of_subset]
  · refine ⟨lowest, ?_, ?_⟩
    · rw [Finset.mem_filter, Finmap.mem_keys]
      exact ⟨Finmap.mem_of_lookup_eq_some isNow, by rw [isNow]; exact body⟩
    · rw [Finset.mem_filter]
      simp [isBefore, noBody]
  · intro number member
    rw [Finset.mem_filter, Finmap.mem_keys] at member ⊢
    obtain ⟨known, downloaded⟩ := member
    obtain ⟨held, found⟩ := Finmap.mem_iff.mp known
    obtain ⟨kept, found', _, _, keeps⟩ :=
      keepsHeaders_embodied (header.hash :: hashes) _ number held found
    refine ⟨Finmap.mem_of_lookup_eq_some found', ?_⟩
    rw [found] at downloaded
    rw [found']
    exact keeps downloaded

/-- With nothing pending in the phase of bodies, a poll issues a request whose answer brings a
new body.
-/
theorem BodyPhase.proceeds (phase : BodyPhase hash localHead last config engine)
    (none : engine.bodyRequests.keys.card = 0)
    (sized : word (config.maxBodyRequests * config.bodiesPerRequest) ≠ 0)
    : ∃ request ∈ engine.pollBodyRequests.1,
        engine.downloadedBodies
          < (engine.pollBodyRequests.2.honestStep hash
              (.answerBodies request.1)).downloadedBodies := by
  obtain ⟨lowest, lacking, known, lacks⟩ := phase.remaining none
  -- the first hash of the first request is that of a header without a body
  have isPending := mem_pendingBodies.mpr ⟨lowest, lacking, known, rfl, lacks⟩
  obtain ⟨first, rest, pending⟩ := List.exists_cons_of_ne_nil (List.ne_nil_of_mem isPending)
  obtain ⟨number, header, found, rfl, missing⟩ :=
    mem_pendingBodies.mp (pending ▸ List.mem_cons_self)
  obtain ⟨few, isFew⟩ := Nat.exists_eq_succ_of_ne_zero sized
  obtain ⟨size, isSize⟩ : ∃ size, config.bodiesPerRequest = size + 1 := by
    apply Nat.exists_eq_succ_of_ne_zero
    intro zero
    rw [zero] at sized
    exact sized rfl
  let hashes := header.hash :: (rest.take few).take size
  obtain ⟨pieces, polled⟩
      : ∃ pieces : List (List B256),
          engine.pollBodyRequests
          = pieces.foldl issueBodyRequest (issueBodyRequest ([], engine) hashes) := by
    unfold SyncEngine.pollBodyRequests
    rw [if_neg (not_not.mpr phase.state), none, Nat.sub_zero, phase.configured]
    simp only
    rw [isFew, pending, List.take_succ_cons, isSize, List.length_cons, chunks,
      List.take_succ_cons, List.foldl_cons]
    · exact ⟨_, rfl⟩
    · exact nofun
  obtain ⟨issued, _, lookups⟩ :=
    issueBodyRequests_keeps pieces (issueBodyRequest ([], engine) hashes)
  have isPolled := lookups engine.nextRequestId (Nat.lt_succ_self _)
  rw [← polled] at issued isPolled
  refine ⟨_, issued _ List.mem_cons_self, ?_⟩
  have sameHeaders : engine.pollBodyRequests.2.headers = engine.headers := by
    obtain ⟨_, _, frame⟩ := engine.pollBodyRequests_frame
    rw [frame]
  apply downloadedBodies_lt found missing ((rest.take few).take size)
  rw [honestStep_answerBodies (isPolled.trans (Finmap.lookup_insert _)), sameHeaders]

-----------------------------------------------------------------------------------------
-- Verification of honest headers
-----------------------------------------------------------------------------------------

/-- Honest headers break nowhere, by induction on the range. -/
theorem brokenAt_range'_eq_none {headers : FinMap Nat SyncedHeader} {first count : Nat}
    (stored
      : ∀ number, first ≤ number → number < first + count →
          ∃ header,
            headers.lookup number = some header
            ∧ header.hash = hash number
            ∧ header.parentHash = hash (number - 1))
    : brokenAt headers (List.range' first count) = none := by
  induction count generalizing first with
  | zero => rfl
  | succ count ih =>
      have rest := @ih (first + 1) (fun number above below => stored number (by omega) (by omega))
      rw [List.range'_succ]
      cases count with
      | zero => rfl
      | succ count =>
          obtain ⟨parent, foundParent, parentHash, _⟩ := stored first (by omega) (by omega)
          obtain ⟨header, found, _, linked⟩ := stored (first + 1) (by omega) (by omega)
          rw [List.range'_succ] at rest ⊢
          unfold brokenAt
          rw [if_neg (not_not.mpr rfl), foundParent, found, Option.map_some, Option.map_some,
            linked, parentHash, Nat.add_sub_cancel, if_neg (not_not.mpr rfl)]
          exact rest

/-- When all is done, verification releases exactly the blocks up to the target. -/
theorem DonePhase.completes (phase : DonePhase hash localHead last engine)
    (before : localHead < last)
    : Completes hash localHead last engine := by
  refine ⟨fun notVerifying => absurd phase.state notVerifying, fun _ _ _ => phase.state,
    fun _ => ?_⟩
  obtain ⟨count, isCount⟩ : ∃ count, last - localHead = count + 1 :=
    Nat.exists_eq_succ_of_ne_zero (by omega)
  have numbers : engine.headers.numbers = List.range' (localHead + 1) (count + 1) := by
    apply FinMap.numbers_eq_range'
    intro number
    rw [phase.range]
    omega
  have unbroken : brokenAt engine.headers (List.range' (localHead + 1) (count + 1)) = none := by
    apply @brokenAt_range'_eq_none hash
    intro number above below
    obtain ⟨header, found⟩ := Finmap.mem_iff.mp ((phase.range number).mpr (by omega))
    exact ⟨header, found, phase.stored number header found⟩
  have highest : (List.range' (localHead + 1 + 1) count).getLastD (localHead + 1) = last := by
    rw [List.getLastD_eq_getLast?, List.getLast?_range']
    split
    next none => rw [Option.getD_none]; omega
    next => rw [Option.getD_some]; omega
  unfold verifyChain
  rw [isCount, numbers]
  rw [List.range'_succ] at unbroken ⊢
  simp only [unbroken, phase.noneReady, List.nil_append, drainImportReady, highest,
    and_self]

-----------------------------------------------------------------------------------------
-- Runs
-----------------------------------------------------------------------------------------

/-- The phases of a run with honest peers. -/
inductive Phase (hash : Nat → B256) (localHead last : Nat) (config : SyncConfig)
    (engine : SyncEngine) : Prop
  | headers (phase : HeaderPhase hash localHead last config engine)
  | bodies (phase : BodyPhase hash localHead last config engine)
  | done (phase : DonePhase hash localHead last engine)

/-- Outside the phase of headers no header request is issued. -/
theorem pollHeaderRequests_of_ne (engine : SyncEngine) (other : engine.state ≠ .downloadingHeaders)
    : engine.pollHeaderRequests = ([], engine) := by
  unfold pollHeaderRequests
  rw [if_pos other]

theorem pollBodyRequests_of_ne (engine : SyncEngine) (other : engine.state ≠ .downloadingBodies)
    : engine.pollBodyRequests = ([], engine) := by
  unfold pollBodyRequests
  rw [if_pos other]

/-- Where nothing is pending there is nothing to answer. -/
theorem honestStep_answerHeaders_of_none {id : Nat}
    (none : engine.headerRequests.lookup id = none)
    : engine.honestStep hash (.answerHeaders id) = engine := by
  unfold honestStep
  simp only [none]

theorem honestStep_answerBodies_of_none {id : Nat}
    (none : engine.bodyRequests.lookup id = none)
    : engine.honestStep hash (.answerBodies id) = engine := by
  unfold honestStep
  simp only [none]

/-- A step leads from a phase to the same one or to the next one. -/
theorem Phase.honestStep (phase : Phase hash localHead last config engine)
    (before : localHead < last) (small : last < 2 ^ 64 - 1)
    (sized : 2 ≤ config.headersPerRequest) (step : HonestStep)
    : Phase hash localHead last config (engine.honestStep hash step) := by
  cases phase with
  | headers phase =>
      cases step with
      | pollHeaderRequests => exact .headers (phase.pollHeaderRequests before small sized)
      | pollBodyRequests =>
          change Phase hash localHead last config engine.pollBodyRequests.2
          rw [pollBodyRequests_of_ne engine (by rw [phase.state]; nofun)]
          exact .headers phase
      | answerHeaders id =>
          cases lookup : engine.headerRequests.lookup id with
          | none =>
              rw [honestStep_answerHeaders_of_none lookup]
              exact .headers phase
          | some request =>
              rcases phase.answerHeaders lookup with headers | ⟨bodies, _⟩
              · exact .headers headers
              · exact .bodies bodies
      | answerBodies id =>
          rw [honestStep_answerBodies_of_none (FinMap.card_eq_zero_iff.mp phase.noBodies id)]
          exact .headers phase
  | bodies phase =>
      cases step with
      | pollHeaderRequests =>
          change Phase hash localHead last config engine.pollHeaderRequests.2
          rw [pollHeaderRequests_of_ne engine (by rw [phase.state]; nofun)]
          exact .bodies phase
      | pollBodyRequests => exact .bodies phase.pollBodyRequests
      | answerHeaders id =>
          rw [honestStep_answerHeaders_of_none (FinMap.card_eq_zero_iff.mp phase.noHeaders id)]
          exact .bodies phase
      | answerBodies id =>
          cases lookup : engine.bodyRequests.lookup id with
          | none =>
              rw [honestStep_answerBodies_of_none lookup]
              exact .bodies phase
          | some request =>
              rcases phase.answerBodies before lookup with bodies | done
              · exact .bodies bodies
              · exact .done done
  | done phase =>
      have same : engine.honestStep hash step = engine := by
        cases step with
        | pollHeaderRequests =>
            change engine.pollHeaderRequests.2 = engine
            rw [pollHeaderRequests_of_ne engine (by rw [phase.state]; nofun)]
        | pollBodyRequests =>
            change engine.pollBodyRequests.2 = engine
            rw [pollBodyRequests_of_ne engine (by rw [phase.state]; nofun)]
        | answerHeaders id =>
            exact honestStep_answerHeaders_of_none (FinMap.card_eq_zero_iff.mp phase.noHeaders id)
        | answerBodies id =>
            exact honestStep_answerBodies_of_none (FinMap.card_eq_zero_iff.mp phase.noBodies id)
      rw [same]
      exact .done phase

/-- The first status opens the phase of headers. -/
theorem headerPhase_started (before : localHead < last) (config : SyncConfig) (peerId : String)
    (bestHash : B256)
    : HeaderPhase hash localHead last config (started localHead config peerId last bestHash) := by
  have isStarted
      : started localHead config peerId last bestHash
        = { new localHead config with
            target := some { bestBlock := last, bestHash, peerId }
            state := .downloadingHeaders } := by
    unfold started onPeerStatus
    have ahead : ¬ last ≤ (new localHead config).localHead := Nat.not_le.mpr before
    rw [if_neg ahead]
    rfl
  rw [isStarted]
  exact
    { state := rfl, atHead := rfl, aim := ⟨_, rfl, rfl⟩, configured := rfl, noBodies := rfl
      noneReady := rfl, stored := nofun, requested := nofun, apart := nofun
      covered := by
        intro number _ reaches
        rcases reaches with ⟨top, member, _⟩ | ⟨_, _, found, _⟩
        · exact absurd member Finmap.notMem_empty
        · exact absurd found nofun
      remaining := fun _ => Nat.lt_of_le_of_lt (Nat.zero_le _) before }

/-- Every run of steps stays in the phases, by induction on the run. -/
theorem Phase.run (before : localHead < last) (small : last < 2 ^ 64 - 1)
    (sized : 2 ≤ config.headersPerRequest) (steps : List HonestStep) {engine : SyncEngine}
    (phase : Phase hash localHead last config engine)
    : Phase hash localHead last config (steps.foldl (SyncEngine.honestStep hash) engine) := by
  induction steps generalizing engine with
  | nil => exact phase
  | cons step rest ih => exact ih (phase.honestStep before small sized step)

/-- Every phase completes when a poll in the phase of bodies asks for at least one. -/
theorem Phase.completes (phase : Phase hash localHead last config engine)
    (before : localHead < last) (small : last < 2 ^ 64 - 1)
    (headersSized : 2 ≤ config.headersPerRequest) (slots : 1 ≤ config.maxHeaderRequests)
    (sized : word (config.maxBodyRequests * config.bodiesPerRequest) ≠ 0)
    : Completes hash localHead last engine := by
  cases phase with
  | headers phase =>
      have proceeds (none : engine.headerRequests.keys.card = 0) :=
        phase.proceeds before small headersSized slots none
      have notVerifying : engine.state ≠ .verifying := by
        rw [phase.state]
        nofun
      refine ⟨fun _ => ?_, fun idle noHeaders _ => ?_,
        fun verifying => absurd verifying notVerifying⟩
      · by_cases none : engine.headerRequests.keys.card = 0
        · obtain ⟨request, issued, _, more⟩ := proceeds none
          exact Or.inr (Or.inl ⟨request, issued, more⟩)
        · exact Or.inl (Or.inl none)
      · obtain ⟨request, issued, _⟩ := proceeds (not_not.mp fun some_ => idle (Or.inl some_))
        exact absurd issued (noHeaders ▸ List.not_mem_nil)
  | bodies phase =>
      have proceeds (none : engine.bodyRequests.keys.card = 0) := phase.proceeds none sized
      have notVerifying : engine.state ≠ .verifying := by
        rw [phase.state]
        nofun
      refine ⟨fun _ => ?_, fun idle _ noBodies => ?_,
        fun verifying => absurd verifying notVerifying⟩
      · by_cases none : engine.bodyRequests.keys.card = 0
        · exact Or.inr (Or.inr (proceeds none))
        · exact Or.inl (Or.inr none)
      · obtain ⟨request, issued, _⟩ := proceeds (not_not.mp fun some_ => idle (Or.inr some_))
        exact absurd issued (noBodies ▸ List.not_mem_nil)
  | done phase => exact phase.completes before

-----------------------------------------------------------------------------------------
-- The size of a body poll
-----------------------------------------------------------------------------------------

theorem HeaderPhase.card_headers_le (phase : HeaderPhase hash localHead last config engine)
    : engine.headers.keys.card ≤ last - localHead := by
  rw [← Nat.card_Ioc localHead last]
  apply Finset.card_le_card
  intro number member
  obtain ⟨header, found⟩ := Finmap.mem_iff.mp (Finmap.mem_keys.mp member)
  obtain ⟨above, below, _⟩ := phase.stored number header found
  exact Finset.mem_Ioc.mpr ⟨above, below⟩

/-- An answer takes the request off and loses no header. -/
theorem HeaderPhase.answerHeaders_card (phase : HeaderPhase hash localHead last config engine)
    {id : Nat} {request : HeaderRequest}
    (lookup : engine.headerRequests.lookup id = some request)
    : (engine.honestStep hash (.answerHeaders id)).headerRequests.keys.card
        < engine.headerRequests.keys.card
      ∧ engine.headers.keys.card
        ≤ (engine.honestStep hash (.answerHeaders id)).headers.keys.card := by
  obtain ⟨target, isTarget, _⟩ := phase.aim
  rw [honestStep_answerHeaders lookup (phase.requested id request lookup).2.2.1 isTarget]
  constructor
  · exact FinMap.card_retain_lt lookup (by simp)
  · apply Finset.card_le_card
    intro number member
    rw [Finmap.mem_keys] at member ⊢
    exact mem_answered.mpr (Or.inl member)

/-- From the phase of headers some run reaches the one of bodies with nothing pending: answer
what is pending, and poll when nothing is.
-/
theorem HeaderPhase.exists_bodyPhase (before : localHead < last) (small : last < 2 ^ 64 - 1)
    (sized : 2 ≤ config.headersPerRequest) (slots : 1 ≤ config.maxHeaderRequests)
    {engine : SyncEngine} (phase : HeaderPhase hash localHead last config engine)
    : ∃ steps : List HonestStep,
        BodyPhase hash localHead last config (steps.foldl (SyncEngine.honestStep hash) engine)
        ∧ (steps.foldl (SyncEngine.honestStep hash) engine).bodyRequests.keys.card = 0 := by
  have few := phase.card_headers_le
  by_cases none : engine.headerRequests.keys.card = 0
  · obtain ⟨request, _, ⟨found, pending⟩, more⟩ := phase.proceeds before small sized slots none
    have phase' := phase.pollHeaderRequests before small sized
    rcases phase'.answerHeaders pending with headers | bodies
    · have few' := headers.card_headers_le
      obtain ⟨steps, reached⟩ := exists_bodyPhase before small sized slots headers
      exact ⟨.pollHeaderRequests :: .answerHeaders request.1 :: steps, reached⟩
    · exact ⟨[.pollHeaderRequests, .answerHeaders request.1], bodies⟩
  · obtain ⟨id, pending⟩ := not_forall.mp (mt FinMap.card_eq_zero_iff.mpr none)
    obtain ⟨request, lookup⟩ := Option.ne_none_iff_exists'.mp pending
    obtain ⟨fewer, kept⟩ := phase.answerHeaders_card lookup
    rcases phase.answerHeaders lookup with headers | bodies
    · have few' := headers.card_headers_le
      obtain ⟨steps, reached⟩ := exists_bodyPhase before small sized slots headers
      exact ⟨.answerHeaders id :: steps, reached⟩
    · exact ⟨[.answerHeaders id], bodies⟩
termination_by (last - localHead - engine.headers.keys.card, engine.headerRequests.keys.card)
decreasing_by
  · exact Prod.Lex.left _ _ (by omega)
  · exact Prod.Lex.right' _ (by omega) fewer

/-- Where the number of hashes to ask for wraps around to zero, nothing is asked for. -/
theorem pollBodyRequests_of_word_eq_zero (phase : BodyPhase hash localHead last config engine)
    (none : engine.bodyRequests.keys.card = 0)
    (wraps : word (config.maxBodyRequests * config.bodiesPerRequest) = 0)
    : engine.pollBodyRequests.1 = [] := by
  unfold pollBodyRequests
  rw [if_neg (not_not.mpr phase.state), none, Nat.sub_zero, phase.configured]
  simp only
  rw [wraps, List.take_zero, chunks, List.foldl_nil]

/-- Every run with honest peers completes if and only if the number of hashes that a poll in
the phase of bodies asks for does not wrap around to zero.
-/
theorem syncCompletes_iff (before : localHead < last) (small : last < 2 ^ 64 - 1)
    (headersSized : 2 ≤ config.headersPerRequest) (slots : 1 ≤ config.maxHeaderRequests)
    (peerId : String) (bestHash : B256)
    : (∀ steps : List HonestStep,
        Completes hash localHead last
          (steps.foldl (honestStep hash) (started localHead config peerId last bestHash)))
      ↔ word (config.maxBodyRequests * config.bodiesPerRequest) ≠ 0 := by
  have start := @headerPhase_started hash localHead last before config peerId bestHash
  constructor
  · intro completes wraps
    obtain ⟨steps, bodies, none⟩ := start.exists_bodyPhase before small headersSized slots
    have idle := pollBodyRequests_of_word_eq_zero bodies none wraps
    have noHeaders := pollHeaderRequests_of_ne _
      (fun downloading => absurd (bodies.state.symm.trans downloading) nofun)
    have verifying := (completes steps).ends
      (fun waiting => waiting.elim (absurd bodies.noHeaders) (absurd none))
      (congrArg Prod.fst noHeaders) idle
    exact absurd (bodies.state.symm.trans verifying) nofun
  · intro sized steps
    exact (Phase.run before small headersSized steps (.headers start)).completes before small
      headersSized slots sized

/-- A new engine between block 0 and block 1 with the default limits. -/
theorem syncCompletes_iff_default
    : (∀ steps : List HonestStep,
        Completes (BitVec.ofNat 256) 0 1
          (steps.foldl (honestStep (BitVec.ofNat 256)) (started 0 .default "peer1" 1 1)))
      ↔ word (SyncConfig.default.maxBodyRequests * SyncConfig.default.bodiesPerRequest) ≠ 0 :=
  syncCompletes_iff (by decide) (by decide) (by decide) (by decide) "peer1" 1

/-- Limits whose product wraps around. -/
def wideBodies : SyncConfig :=
  { SyncConfig.default with
    bodiesPerRequest := 2 ^ 32
    maxBodyRequests := 2 ^ 32
    bodiesPerRequest_pos := by decide }

/-- With such limits the engine asks for the header and then for nothing. -/
theorem syncCompletes_fails_on_wideBodies
    : ¬ Completes (BitVec.ofNat 256) 0 1
        ([HonestStep.pollHeaderRequests, .answerHeaders 1].foldl
          (honestStep (BitVec.ofNat 256)) (started 0 wideBodies "peer1" 1 1)) := by
  intro completes
  exact absurd
    (completes.ends (by unfold Waiting; decide +kernel) (by decide +kernel) (by decide +kernel))
    (by decide +kernel)

end SyncEngine

end VeloChain
