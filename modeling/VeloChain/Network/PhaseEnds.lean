import VeloChain.Network.HeaderRanges
import VeloChain.Network.HonestSync

/-! When the sync engine has all headers, and when it has all bodies.
For headers the engine looks at the highest one and at whether a request is pending. That is
enough as long as every number below one that is known is downloaded or on its way; an answer
that leaves out numbers, a request that is given up or a head that moves back can open a gap for
good. For bodies it looks at every header, but also waits for requests that nothing answers in
one piece any more.
-/

namespace VeloChain

open RequestTable

namespace SyncEngine

-----------------------------------------------------------------------------------------
-- Gaps
-----------------------------------------------------------------------------------------

/-- The number is at most that of a header that is there or comes in, or below the end of a
pending request that is left.
-/
def ReachesWith (engine : SyncEngine) (left : HeaderRequest → Prop) (received : List Nat)
    (number : Nat) : Prop :=
  (∃ top, (top ∈ engine.headers ∨ top ∈ received) ∧ number ≤ top)
  ∨ ∃ id request,
      engine.headerRequests.lookup id = some request
      ∧ left request
      ∧ number < request.start + request.count

/-- The header of the number is there, comes in, or is on its way with a request that is left. -/
def HeldWith (engine : SyncEngine) (left : HeaderRequest → Prop) (received : List Nat)
    (number : Nat) : Prop :=
  number ∈ engine.headers
  ∨ number ∈ received
  ∨ ∃ id request,
      engine.headerRequests.lookup id = some request ∧ left request ∧ request.Covers number

/-- Taking off all pending requests but those that are left, and storing what comes in, opens no
gap above the local head: a number of a dropped request is held, or nothing after it is known,
and everything before a number that comes in is held.
-/
structure ClosesUp (engine : SyncEngine) (left : HeaderRequest → Prop) (received : List Nat)
    : Prop where
  dropped
    : ∀ id request, engine.headerRequests.lookup id = some request → ¬ left request →
        ∀ number, engine.localHead < number → request.Covers number →
          engine.ReachesWith left received number → engine.HeldWith left received number
  jumped
    : ∀ top ∈ received, ∀ number, engine.localHead < number → number < top →
        engine.HeldWith left received number

/-- No gap opens: an answer takes off the requests that start as it does, a tick those that it
gives up, and a head that moves back uncovers no missing number.
-/
def LeavesNoGap (engine : SyncEngine) : SyncOp → Prop
  | .onHeadersReceived (first :: rest) =>
      engine.ClosesUp (fun request => request.start ≠ first.1) ((first :: rest).map Prod.fst)
  | .tick _ =>
      engine.ClosesUp
        (fun request => ¬ (engine.headerExpires request ∧ engine.headerAgain request = none)) []
  | .updateLocalHead newHead =>
      ∀ number, newHead < number → number ≤ engine.localHead → engine.Reaches number →
        engine.Held number
  | _ => True

/-- When a call ends the phase of headers, all headers up to the target are there. -/
def BringsAllHeaders (turn : ReturnedCall SyncEngine SyncOp SyncReply) : Prop :=
  turn.before.state = .downloadingHeaders → turn.after.state = .downloadingBodies →
    ∀ target, turn.after.target = some target →
      ∀ number, turn.after.localHead < number → number ≤ target.bestBlock →
        number ∈ turn.after.headers

/-- Every number above the local head that is below a known one is downloaded or on its way. -/
def Covered (engine : SyncEngine) : Prop :=
  ∀ number, engine.localHead < number → engine.Reaches number → engine.Held number

variable {config : SyncConfig} {engine : SyncEngine}

theorem covered_new (localHead : Nat) (config : SyncConfig) : Covered (new localHead config) := by
  rintro number _ (⟨top, stored, _⟩ | ⟨id, request, found, _⟩)
  · exact absurd stored Finmap.notMem_empty
  · exact absurd found (by simp [new])

/-- What is stored and what is pending decide. -/
theorem Covered.of_same {after : SyncEngine} (covered : engine.Covered)
    (head : after.localHead = engine.localHead)
    (stored : ∀ number, number ∈ after.headers ↔ number ∈ engine.headers)
    (pending : after.headerRequests = engine.headerRequests)
    : after.Covered := by
  intro number above reaches
  unfold Reaches at reaches
  unfold Held
  simp only [stored, pending] at reaches ⊢
  exact covered number (head ▸ above) reaches

-----------------------------------------------------------------------------------------
-- Answers and ticks
-----------------------------------------------------------------------------------------

/-- A step that closes up keeps the coverage. -/
theorem Covered.closeUp {left : HeaderRequest → Prop} {received : List Nat} {after : SyncEngine}
    (covered : engine.Covered) (closes : engine.ClosesUp left received)
    (head : after.localHead = engine.localHead)
    (reaches : ∀ number, after.Reaches number → engine.ReachesWith left received number)
    (held : ∀ number, engine.HeldWith left received number → after.Held number)
    : after.Covered := by
  intro number above known
  rw [head] at above
  refine held number ?_
  have reached := reaches number known
  -- what was known before was held before, by a request that is left or by a dropped one
  have keeps (before : engine.Reaches number) : engine.HeldWith left received number := by
    rcases covered number above before with stored | ⟨id, request, found, inside⟩
    · exact Or.inl stored
    · by_cases isLeft : left request
      · exact Or.inr (Or.inr ⟨id, request, found, isLeft, inside⟩)
      · exact closes.dropped id request found isLeft number above inside reached
  rcases reached with ⟨top, stored | new, below⟩ | ⟨id, request, found, _, below⟩
  · exact keeps (Or.inl ⟨top, stored, below⟩)
  · rcases Nat.lt_or_eq_of_le below with lower | rfl
    · exact closes.jumped top new number above lower
    · exact Or.inr (Or.inl new)
  · exact keeps (Or.inr ⟨id, request, found, below⟩)

/-- Storing brings the numbers that come in, by induction on the headers. -/
theorem mem_storeHeaders {received : List ReceivedHeader} {headers : FinMap Nat SyncedHeader}
    {number : Nat}
    : number ∈ received.foldl storeHeader headers
      ↔ number ∈ headers ∨ number ∈ received.map Prod.fst := by
  induction received generalizing headers with
  | nil => simp
  | cons first rest ih =>
      have stored : number ∈ storeHeader headers first ↔ number ∈ headers ∨ number = first.1 := by
        unfold storeHeader
        simp only
        split
        next known =>
          refine ⟨Or.inl, fun either => either.elim id (fun same => ?_)⟩
          rw [same]
          exact known
        next => rw [Finmap.mem_insert, or_comm]
      rw [List.foldl_cons, ih, stored, List.map_cons, List.mem_cons, or_assoc]

theorem Covered.onHeadersReceived (covered : engine.Covered) {headers : List ReceivedHeader}
    (closes : engine.LeavesNoGap (.onHeadersReceived headers))
    : (engine.onHeadersReceived headers).2.Covered := by
  cases headers with
  | nil => exact covered
  | cons first rest =>
      have pending {id : Nat} {request : HeaderRequest}
          : (engine.onHeadersReceived (first :: rest)).2.headerRequests.lookup id = some request
            ↔ engine.headerRequests.lookup id = some request ∧ request.start ≠ first.1 := by
        change (engine.headerRequests.retain _).lookup id = _ ↔ _
        rw [FinMap.lookup_retain, Option.filter_eq_some_iff, decide_eq_true_eq]
      have stored {number : Nat}
          : number ∈ (engine.onHeadersReceived (first :: rest)).2.headers
            ↔ number ∈ engine.headers ∨ number ∈ (first :: rest).map Prod.fst :=
        mem_storeHeaders
      refine covered.closeUp closes rfl (fun number reaches => ?_) (fun number held => ?_)
      · rcases reaches with ⟨top, isStored, below⟩ | ⟨id, request, found, below⟩
        · exact Or.inl ⟨top, stored.mp isStored, below⟩
        · obtain ⟨known, isLeft⟩ := pending.mp found
          exact Or.inr ⟨id, request, known, isLeft, below⟩
      · rcases held with known | new | ⟨id, request, found, isLeft, inside⟩
        · exact Or.inl (stored.mpr (Or.inl known))
        · exact Or.inl (stored.mpr (Or.inr new))
        · exact Or.inr ⟨id, request, pending.mpr ⟨found, isLeft⟩, inside⟩

theorem Covered.tick (covered : engine.Covered) (booked : Booked config engine)
    (order : RequestOrder) (closes : engine.LeavesNoGap (.tick order))
    : (engine.tick order).2.Covered := by
  obtain ⟨_, renewed, _⟩ := tick_renews order booked.headerIds booked.bodyIds
  obtain ⟨origin, _, origins⟩ := renewed.origins
  refine covered.closeUp closes rfl (fun number reaches => ?_) (fun number held => ?_)
  · rcases reaches with ⟨top, stored, below⟩ | ⟨id, request, found, below⟩
    · exact Or.inl ⟨top, Or.inl stored, below⟩
    · right
      obtain ⟨old, known, ⟨own, rfl⟩ | ⟨_, entered⟩⟩ := origins id request found
      · rw [← own] at known
        refine ⟨id, request, known, fun ⟨expires, _⟩ => ?_, below⟩
        obtain ⟨_, gone⟩ := renewed.gone id (mem_timedOut.mpr ⟨request, known, expires⟩)
        exact gone (Finmap.mem_of_lookup_eq_some found)
      · obtain ⟨sameStart, sameCount⟩ := range_of_headerAgain entered
        rw [sameStart, sameCount] at below
        exact ⟨_, old, known, fun ⟨_, ends⟩ => absurd (entered.symm.trans ends) nofun, below⟩
  · rcases held with known | new | ⟨id, request, found, isLeft, inside⟩
    · exact Or.inl known
    · exact absurd new List.not_mem_nil
    · right
      rcases renewed.kept id request found
        with same | ⟨listed, ends | ⟨id', again, _, present, entered⟩⟩
      · exact ⟨id, request, same, inside⟩
      · obtain ⟨request', known, expires⟩ := mem_timedOut.mp listed
        obtain rfl := Option.some.inj (found.symm.trans known)
        exact absurd ⟨expires, ends⟩ isLeft
      · obtain ⟨sameStart, sameCount⟩ := range_of_headerAgain entered
        unfold HeaderRequest.Covers at inside
        rw [← sameStart, ← sameCount] at inside
        exact ⟨id', again, present, inside⟩

-----------------------------------------------------------------------------------------
-- Polls and the local head
-----------------------------------------------------------------------------------------

/-- Everything before the start of a poll is held. -/
theorem Covered.before_pollStart (covered : engine.Covered) {number : Nat}
    (above : engine.localHead < number) (below : number < engine.pollStart)
    : engine.Held number := by
  have first : word (engine.localHead + 1) ≤ engine.localHead + 1 := Nat.mod_le _ _
  refine covered number above ?_
  unfold pollStart at below
  by_cases requested : number < engine.highestRequested
  · rcases engine.highestRequested_cases with zero | ⟨id, request, found, ends⟩
    · omega
    · have le : word (request.start + request.count) ≤ request.start + request.count :=
        Nat.mod_le _ _
      exact Or.inr ⟨id, request, found, by omega⟩
  · rcases engine.headers.highest_eq_zero_or_mem with zero | stored
    · omega
    · exact Or.inl ⟨_, stored, by omega⟩

/-- The requests of a poll begin where everything before is held and follow one another, by
induction on the turns.
-/
theorem Covered.pollHeaderRequests (covered : engine.Covered)
    (ids : Below engine.nextRequestId engine.headerRequests)
    : engine.pollHeaderRequests.2.Covered := by
  rcases engine.pollHeaderRequests_cases with none | ⟨target, _, _, polled⟩
  · rw [none]
    exact covered
  rw [polled]
  obtain ⟨_, covered, _⟩ := @issueHeaderRequests_induction target
    (fun _ start after =>
      after.Covered
      ∧ Below after.nextRequestId after.headerRequests
      ∧ ∀ number, after.localHead < number → number < start → after.Held number)
    (fun _ start after ⟨covered, ids, before⟩ _ => by
      refine ⟨covered_withHeaderRequest ids covered before, ids.insert _,
        fun number above below => ?_⟩
      refine held_withHeaderRequest ids before number above ?_
      exact Nat.lt_of_lt_of_le below (Nat.mod_le _ _))
    (engine.config.maxHeaderRequests - engine.headerRequests.keys.card) [] engine.pollStart engine
    ⟨covered, ids, fun _ above below => covered.before_pollStart above below⟩
  exact covered

theorem Covered.updateLocalHead (covered : engine.Covered) {newHead : Nat}
    (noGap : engine.LeavesNoGap (.updateLocalHead newHead))
    : (engine.updateLocalHead newHead).Covered := by
  obtain ⟨_, _, same, _⟩ := engine.updateLocalHead_cases newHead
  have stored {number : Nat}
      : number ∈ (engine.updateLocalHead newHead).headers
        ↔ number ∈ engine.headers ∧ newHead < number := by
    rw [same, FinMap.mem_eraseAll, List.mem_filter, FinMap.mem_numbers, decide_eq_true_eq, not_and,
      Nat.not_le]
    exact and_congr_right (fun isStored => forall_prop_of_true isStored)
  have pending : (engine.updateLocalHead newHead).headerRequests = engine.headerRequests := by
    rw [same]
  intro number above reaches
  have higher : newHead < number := by
    rw [same] at above
    exact above
  have reached : engine.Reaches number := by
    rcases reaches with ⟨top, isStored, below⟩ | ⟨id, request, found, below⟩
    · exact Or.inl ⟨top, (stored.mp isStored).1, below⟩
    · exact Or.inr ⟨id, request, pending ▸ found, below⟩
  have held : engine.Held number := by
    by_cases old : engine.localHead < number
    · exact covered number old reached
    · exact noGap number higher (Nat.le_of_not_lt old) reached
  rcases held with known | ⟨id, request, found, inside⟩
  · exact Or.inl (stored.mpr ⟨known, higher⟩)
  · exact Or.inr ⟨id, request, pending ▸ found, inside⟩

-----------------------------------------------------------------------------------------
-- The end of the headers
-----------------------------------------------------------------------------------------

/-- Every operation that leaves no gap keeps the coverage, by cases on the operation. -/
theorem Covered.run (covered : engine.Covered) (booked : Booked config engine) {op : SyncOp}
    (noGap : engine.LeavesNoGap op)
    : (engine.run op).Covered := by
  cases op with
  | banPeer peerId => exact covered
  | onPeerStatus peerId bestBlock bestHash =>
      change (engine.onPeerStatus peerId bestBlock bestHash).Covered
      rcases engine.onPeerStatus_cases peerId bestBlock bestHash with kept | ⟨_, _, kept⟩
      · rw [kept]
        exact covered
      · rw [kept]
        exact covered
  | updateLocalHead newHead => exact covered.updateLocalHead noGap
  | pollHeaderRequests => exact covered.pollHeaderRequests booked.headerIds
  | onHeadersReceived headers => exact covered.onHeadersReceived noGap
  | pollBodyRequests =>
      obtain ⟨_, _, frame⟩ := engine.pollBodyRequests_frame
      change engine.pollBodyRequests.2.Covered
      rw [frame]
      exact covered
  | onBodiesReceived hashes => exact covered.of_same rfl (fun _ => mem_embodied) rfl
  | verifyChain =>
      change engine.verifyChain.2.Covered
      rcases engine.verifyChain_cases with ⟨_, _, verified⟩ | ⟨_, kept⟩
      · rw [verified]
        exact covered.of_same rfl (fun _ => FinMap.mem_modifyAll) rfl
      · rw [kept]
        exact covered
  | tick order => exact covered.tick booked order noGap
  | drainImportReady => exact covered

/-- Beside answers with headers, no operation begins the phase of bodies. -/
theorem state_of_run {op : SyncOp} (notAnswer : ∀ headers, op ≠ .onHeadersReceived headers)
    : (engine.run op).state = engine.state ∨ (engine.run op).state ≠ .downloadingBodies := by
  cases op with
  | banPeer peerId => exact Or.inl rfl
  | onPeerStatus peerId bestBlock bestHash =>
      change (engine.onPeerStatus peerId bestBlock bestHash).state = _ ∨ _
      rcases engine.onPeerStatus_cases peerId bestBlock bestHash with kept | ⟨_, _, aims⟩
      · exact Or.inl (by rw [kept])
      · by_cases synced : engine.state = .synced
        · right
          change (engine.onPeerStatus peerId bestBlock bestHash).state ≠ _
          rw [aims]
          simp only [if_pos synced]
          nofun
        · exact Or.inl (by rw [aims]; exact if_neg synced)
  | updateLocalHead newHead =>
      obtain ⟨_, _, same, kept | caughtUp⟩ := engine.updateLocalHead_cases newHead
      · exact Or.inl ((congrArg state same).trans kept.1)
      · right
        change (engine.updateLocalHead newHead).state ≠ _
        rw [same, caughtUp.1]
        nofun
  | pollHeaderRequests =>
      obtain ⟨_, _, frame⟩ := engine.pollHeaderRequests_frame
      change engine.pollHeaderRequests.2.state = _ ∨ _
      exact Or.inl (by rw [frame])
  | onHeadersReceived headers => exact absurd rfl (notAnswer headers)
  | pollBodyRequests =>
      obtain ⟨_, _, frame⟩ := engine.pollBodyRequests_frame
      change engine.pollBodyRequests.2.state = _ ∨ _
      exact Or.inl (by rw [frame])
  | onBodiesReceived hashes =>
      change (engine.onBodiesReceived hashes).2.state = _
        ∨ (engine.onBodiesReceived hashes).2.state ≠ _
      unfold onBodiesReceived
      simp only
      split
      next => exact Or.inr nofun
      next => exact Or.inl rfl
  | verifyChain =>
      change engine.verifyChain.2.state = _ ∨ engine.verifyChain.2.state ≠ _
      rcases engine.verifyChain_cases with ⟨_, _, verified⟩ | ⟨_, kept⟩
      · rw [verified]
        exact Or.inr nofun
      · exact Or.inl (by rw [kept])
  | tick order =>
      change (engine.tick order).2.state = _ ∨ (engine.tick order).2.state ≠ _
      unfold tick
      simp only
      split
      next => exact Or.inr nofun
      next => exact Or.inl rfl
  | drainImportReady => exact Or.inl rfl

/-- Only an answer ends the phase of headers: with the highest header at the target or above, and
nothing pending.
-/
theorem ends_of_run {op : SyncOp} (before : engine.state = .downloadingHeaders)
    (after : (engine.run op).state = .downloadingBodies)
    : (engine.run op).headerRequests.keys.card = 0
      ∧ ∀ target, (engine.run op).target = some target →
          target.bestBlock ≤ (engine.run op).headers.highest := by
  have moves : (engine.run op).state ≠ engine.state := by
    rw [before, after]
    nofun
  by_cases answer : ∃ headers, op = .onHeadersReceived headers
  · obtain ⟨_ | ⟨first, rest⟩, rfl⟩ := answer
    · exact absurd rfl moves
    unfold run at moves ⊢
    unfold onHeadersReceived at moves ⊢
    simp only at moves ⊢
    cases isTarget : engine.target with
    | none =>
        rw [isTarget] at moves
        exact absurd rfl moves
    | some target =>
        simp only [isTarget] at moves
        split at moves
        next reached =>
          refine ⟨reached.2, fun target' same => ?_⟩
          obtain rfl := Option.some.inj same
          exact reached.1
        next => exact absurd rfl moves
  · rcases @state_of_run engine op (fun headers same => answer ⟨headers, same⟩) with same | other
    · exact absurd same moves
    · exact absurd after other

/-- In every run whose steps leave no gap, all headers up to the target are there when the phase
of headers ends.
-/
theorem headerCompleteness_run {localHead : Nat} {config : SyncConfig} {ops : List SyncOp}
    (noGap : Throughout LeavesNoGap ops (new localHead config))
    : ∀ turn ∈ CallTrace.calls call ops (new localHead config), BringsAllHeaders turn := by
  have covered
      : ∀ turn ∈ CallTrace.calls call ops (new localHead config), turn.after.Covered := by
    refine CallTrace.forall_after (fun turn member covered returns => ?_)
      (covered_new localHead config)
    rw [(turn_of_call returns).2]
    exact covered.run (booked_before member) (noGap turn member)
  intro turn member before after target isTarget number above below
  obtain ⟨_, sameAfter⟩ := turn_of_call (CallTrace.call_of_mem member)
  rw [sameAfter] at after
  obtain ⟨none, reached⟩ := ends_of_run before after
  rw [← sameAfter] at none reached
  have top := reached target isTarget
  have stored := turn.after.headers.highest_eq_zero_or_mem.resolve_left (by omega)
  rcases covered turn member number above (Or.inl ⟨_, stored, by omega⟩)
    with known | ⟨id, request, found, _⟩
  · exact known
  · exact absurd ((FinMap.card_eq_zero_iff.mp none id).symm.trans found) nofun

/-- Two blocks, asked for and answered in one piece. -/
theorem headerCompleteness_run_twoBlocks
    : let ops : List SyncOp :=
        [.onPeerStatus "peer1" 2 5, .pollHeaderRequests,
          .onHeadersReceived [numberedHeader 1, numberedHeader 2]]
      Throughout LeavesNoGap ops (new 0 .default)
      ∧ ∀ turn ∈ CallTrace.calls call ops (new 0 .default), BringsAllHeaders turn := by
  intro ops
  suffices noGap : Throughout LeavesNoGap ops (new 0 .default) from
    ⟨noGap, headerCompleteness_run noGap⟩
  refine .cons trivial (.cons trivial (.cons ⟨?_, ?_⟩ (throughout_nil _ _)))
  · intro id request found _ number above inside _
    have only
        : ((new 0 .default).onPeerStatus "peer1" 2 5).pollHeaderRequests.2.headerRequests
          = (∅ : FinMap Nat HeaderRequest).insert 1
              { start := 1, count := 2, peerId := "peer1", createdTick := 0, retries := 0 } :=
      rfl
    change ((new 0 .default).onPeerStatus "peer1" 2 5).pollHeaderRequests.2.headerRequests.lookup id
      = some request at found
    rw [only, FinMap.lookup_insert_eq] at found
    split at found
    next =>
      obtain rfl := Option.some.inj found
      have range : number = 1 ∨ number = 2 := by
        have bounds : 1 ≤ number ∧ number < 1 + 2 := inside
        omega
      exact Or.inr (Or.inl (by rcases range with rfl | rfl <;> decide))
    next => exact absurd found (by simp)
  · intro top isTop number above below
    have one : number = 1 := by
      have bounds : top = 1 ∨ top = 2 := by simpa [numberedHeader] using isTop
      have positive : 0 < number := above
      omega
    exact Or.inr (Or.inl (by rw [one]; decide))

/-- Two requests are answered, the second one first and the first one in part: the phase of
bodies begins without block 2.
-/
theorem headerCompleteness_fails_onPartialAnswer
    : ¬ ∀ turn ∈ CallTrace.calls call
        [.onPeerStatus "peer1" 4 5, .pollHeaderRequests,
          .onHeadersReceived [numberedHeader 3, numberedHeader 4],
          .onHeadersReceived [numberedHeader 1]]
        (new 0 { SyncConfig.default with headersPerRequest := 2 }),
        BringsAllHeaders turn := by
  intro holds
  simp only [CallTrace.calls, call, List.forall_mem_cons] at holds
  obtain ⟨_, _, _, last, _⟩ := holds
  have stored := last (by decide +kernel) (by decide +kernel)
    { bestBlock := 4, bestHash := 5, peerId := "peer1" } (by decide +kernel) 2 (by decide +kernel)
    (by decide)
  exact absurd stored (by decide +kernel)

-----------------------------------------------------------------------------------------
-- The end of the bodies
-----------------------------------------------------------------------------------------

/-- Every stored header has its body. -/
def HasAllBodies (engine : SyncEngine) : Prop :=
  ∀ number header, engine.headers.lookup number = some header → header.bodyDownloaded = true

/-- The hashes of every pending body request are among the given ones. -/
def AnswersAll (engine : SyncEngine) (hashes : List B256) : Prop :=
  ∀ id request, engine.bodyRequests.lookup id = some request →
    ∀ hash ∈ request.hashes, hash ∈ hashes

theorem hasAllBodies_iff (engine : SyncEngine)
    : engine.HasAllBodies ↔ engine.headers.values.all SyncedHeader.bodyDownloaded = true := by
  rw [List.all_eq_true]
  constructor
  · intro all header member
    obtain ⟨number, found⟩ := FinMap.mem_values.mp member
    exact all number header found
  · exact fun all number header found => all header (FinMap.mem_values.mpr ⟨number, found⟩)

/-- No request is left pending exactly when all of them are answered in full. -/
theorem answersAll_iff (engine : SyncEngine) (hashes : List B256)
    : engine.AnswersAll hashes
      ↔ (engine.onBodiesReceived hashes).2.bodyRequests.keys.card = 0 := by
  have pending (id : Nat)
      : (engine.onBodiesReceived hashes).2.bodyRequests.lookup id
        = (engine.bodyRequests.lookup id).filter
            (fun request => !request.hashes.all (· ∈ hashes)) :=
    FinMap.lookup_retain _ _ id
  rw [FinMap.card_eq_zero_iff]
  refine forall_congr' (fun id => ?_)
  rw [pending, Option.filter_eq_none_iff]
  refine forall₂_congr (fun request _ => ?_)
  simp

/-- When all headers have their bodies after an answer, the phase of bodies ends exactly when the
answer alone contains all hashes of all pending requests.
-/
theorem bodyCompletion_iff {engine : SyncEngine} (phase : engine.state = .downloadingBodies)
    (stored : engine.headers.keys.card ≠ 0) {hashes : List B256}
    (complete : (engine.onBodiesReceived hashes).2.HasAllBodies)
    : (engine.onBodiesReceived hashes).2.state = .verifying ↔ engine.AnswersAll hashes := by
  have remain : (engine.onBodiesReceived hashes).2.headers.keys.card ≠ 0 := by
    have same : (engine.onBodiesReceived hashes).2.headers.keys = engine.headers.keys := by
      ext number
      rw [Finmap.mem_keys, Finmap.mem_keys]
      exact mem_embodied
    rwa [same]
  have all := (hasAllBodies_iff _).mp complete
  rw [answersAll_iff]
  have state
      : (engine.onBodiesReceived hashes).2.state
        = if (engine.onBodiesReceived hashes).2.headers.values.all SyncedHeader.bodyDownloaded
              ∧ (engine.onBodiesReceived hashes).2.bodyRequests.keys.card = 0
              ∧ (engine.onBodiesReceived hashes).2.headers.keys.card ≠ 0
          then .verifying
          else engine.state :=
    rfl
  rw [state, phase]
  split
  next ends => exact iff_of_true rfl ends.2.1
  next goes => exact iff_of_false nofun (fun none => goes ⟨all, none, remain⟩)

/-- Two headers whose bodies have been asked for in one request. -/
def twoBodiesAsked : SyncEngine :=
  (new 0 .default).runAll
    [.onPeerStatus "peer1" 2 2, .onHeadersReceived [numberedHeader 1, numberedHeader 2],
      .pollBodyRequests]

/-- Both bodies come in at once. -/
theorem bodyCompletion_iff_twoBodies
    : (twoBodiesAsked.onBodiesReceived [1, 2]).2.state = .verifying
      ↔ twoBodiesAsked.AnswersAll [1, 2] :=
  bodyCompletion_iff (by decide +kernel) (by decide +kernel)
    ((hasAllBodies_iff _).mpr (by decide +kernel))

/-- The bodies come in one after the other, and the engine waits on. -/
theorem bodyCompletion_fails_onSplitAnswer
    : let engine := twoBodiesAsked.run (.onBodiesReceived [1])
      engine.state = .downloadingBodies
      ∧ engine.headers.keys.card ≠ 0
      ∧ (engine.onBodiesReceived [2]).2.HasAllBodies
      ∧ (engine.onBodiesReceived [2]).2.state ≠ .verifying :=
  ⟨by decide +kernel, by decide +kernel, (hasAllBodies_iff _).mpr (by decide +kernel),
    by decide +kernel⟩

end SyncEngine

end VeloChain
