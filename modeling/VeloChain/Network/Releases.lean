import VeloChain.Network.SyncCalls

/-! What the sync engine releases twice, and where it stops too early.
Verification releases everything that is stored and declares the engine synced, without a look
at what has been released already and at the target. Where it finds only new headers that reach
the target, no number is released twice and a synced engine has caught up.
-/

namespace VeloChain

namespace SyncEngine

variable {past : List (ReturnedCall SyncEngine SyncOp SyncReply)}
  {turn : ReturnedCall SyncEngine SyncOp SyncReply}

-----------------------------------------------------------------------------------------
-- Verified headers
-----------------------------------------------------------------------------------------

/-- The header of the number is there and verified. -/
def VerifiedAt (headers : FinMap Nat SyncedHeader) (number : Nat) : Prop :=
  ∃ header, headers.lookup number = some header ∧ header.verified = true

/-- A stored header is not verified, and replaces none. -/
theorem verifiedAt_storeHeader (number : Nat) (headers : FinMap Nat SyncedHeader)
    (received : ReceivedHeader)
    : VerifiedAt (storeHeader headers received) number ↔ VerifiedAt headers number := by
  unfold storeHeader
  simp only
  split
  next => exact Iff.rfl
  next fresh =>
    unfold VerifiedAt
    rw [FinMap.lookup_insert_eq]
    split
    next same =>
      constructor
      · rintro ⟨header, found, verified⟩
        obtain rfl := Option.some.inj found
        simp at verified
      · rintro ⟨header, found, _⟩
        exact absurd (same ▸ Finmap.mem_of_lookup_eq_some found) fresh
    next => exact Iff.rfl

/-- A body does not change whether a header is verified. -/
theorem verifiedAt_matchBody (number : Nat) (matched : Nat × FinMap Nat SyncedHeader)
    (hash : B256)
    : VerifiedAt (matchBody matched hash).2 number ↔ VerifiedAt matched.2 number := by
  unfold matchBody
  split
  next => exact Iff.rfl
  next =>
    simp only [VerifiedAt, FinMap.lookup_modify]
    split
    next same =>
      constructor
      · rintro ⟨header, found, verified⟩
        obtain ⟨old, wasThere, rfl⟩ := Option.map_eq_some_iff.mp found
        exact ⟨old, same ▸ wasThere, verified⟩
      · rintro ⟨header, found, verified⟩
        exact ⟨{ header with bodyDownloaded := true }, by rw [found, Option.map_some], verified⟩
    next => exact Iff.rfl

/-- What every turn of a loop leaves alone, the loop leaves alone. -/
theorem verifiedAt_foldl {α σ : Type} {step : σ → α → σ} {number : Nat}
    (headers : σ → FinMap Nat SyncedHeader)
    (keeps
      : ∀ state item,
          VerifiedAt (headers (step state item)) number ↔ VerifiedAt (headers state) number)
    (items : List α) (state : σ)
    : VerifiedAt (headers (items.foldl step state)) number
      ↔ VerifiedAt (headers state) number := by
  induction items generalizing state with
  | nil => exact Iff.rfl
  | cons item rest ih => exact (ih (step state item)).trans (keeps state item)

/-- Beside moves of the local head and verifications, an operation leaves the local head as it is
and the same headers verified.
-/
theorem frame_run (engine : SyncEngine) {op : SyncOp}
    (noMove : ∀ newHead, op ≠ .updateLocalHead newHead) (noVerify : op ≠ .verifyChain)
    : (engine.run op).localHead = engine.localHead
      ∧ ∀ number,
          VerifiedAt (engine.run op).headers number ↔ VerifiedAt engine.headers number := by
  cases op with
  | banPeer peerId => exact ⟨rfl, fun _ => Iff.rfl⟩
  | onPeerStatus peerId bestBlock bestHash =>
      unfold run
      rcases engine.onPeerStatus_cases peerId bestBlock bestHash with same | ⟨_, _, same⟩
      · simp only [same]
        exact ⟨trivial, fun _ => trivial⟩
      · simp only [same]
        exact ⟨trivial, fun _ => trivial⟩
  | updateLocalHead newHead => exact absurd rfl (noMove newHead)
  | pollHeaderRequests =>
      obtain ⟨_, _, frame⟩ := engine.pollHeaderRequests_frame
      unfold run
      rw [frame]
      exact ⟨rfl, fun _ => Iff.rfl⟩
  | onHeadersReceived headers =>
      cases headers with
      | nil => exact ⟨rfl, fun _ => Iff.rfl⟩
      | cons first rest =>
          exact ⟨rfl, fun number =>
            verifiedAt_foldl id (verifiedAt_storeHeader number) (first :: rest) engine.headers⟩
  | pollBodyRequests =>
      obtain ⟨_, _, frame⟩ := engine.pollBodyRequests_frame
      unfold run
      rw [frame]
      exact ⟨rfl, fun _ => Iff.rfl⟩
  | onBodiesReceived hashes =>
      exact ⟨rfl, fun number =>
        verifiedAt_foldl Prod.snd (verifiedAt_matchBody number) hashes (0, engine.headers)⟩
  | verifyChain => exact absurd rfl noVerify
  | tick order => exact ⟨rfl, fun _ => Iff.rfl⟩
  | drainImportReady => exact ⟨rfl, fun _ => Iff.rfl⟩

-----------------------------------------------------------------------------------------
-- Nothing twice
-----------------------------------------------------------------------------------------

/-- An unbroken chain is verified only when its headers are new: not verified yet and above the
local head. The local head does not go down.
-/
def VerifiesNew (engine : SyncEngine) : SyncOp → Prop
  | .verifyChain =>
      brokenAt engine.headers engine.headers.numbers = none →
      ∀ number header, engine.headers.lookup number = some header →
        header.verified = false ∧ engine.localHead < number
  | .updateLocalHead newHead => engine.localHead ≤ newHead
  | _ => True

/-- No number has been released twice, and those that have been are still stored as verified or
not above the local head.
-/
structure ReleasedOnce (past : List (ReturnedCall SyncEngine SyncOp SyncReply))
    (engine : SyncEngine) : Prop where
  nodup : (released past engine).Nodup
  known
    : ∀ number ∈ released past engine,
        number ≤ engine.localHead ∨ VerifiedAt engine.headers number

theorem verifiedAt_modifyAll {headers : FinMap Nat SyncedHeader} {number : Nat}
    (stored : number ∈ headers)
    : VerifiedAt
        (headers.modifyAll headers.numbers (fun header => { header with verified := true }))
        number := by
  have nodup : headers.numbers.Nodup := FinMap.nodup_sortedKeys headers
  obtain ⟨header, found⟩ := Finmap.mem_iff.mp stored
  refine ⟨{ header with verified := true }, ?_, rfl⟩
  rw [FinMap.lookup_modifyAll nodup, if_pos (FinMap.mem_numbers.mpr stored), found]
  rfl

/-- The verification of new headers releases numbers that have not been released. -/
theorem ReleasedOnce.verifyChain {engine : SyncEngine} (once : ReleasedOnce past engine)
    (new : engine.VerifiesNew .verifyChain) (numbers : List Nat)
    (isNumbers : numbers = released past engine ++ engine.newlyVerified .verifyChain)
    : numbers.Nodup
      ∧ ∀ number ∈ numbers,
          number ≤ engine.verifyChain.2.localHead
          ∨ VerifiedAt engine.verifyChain.2.headers number := by
  subst isNumbers
  rcases engine.verifyChain_cases with ⟨unbroken, _, verified⟩ | ⟨none, same⟩
  · have isNew : engine.newlyVerified .verifyChain = engine.headers.numbers := if_pos unbroken
    rw [isNew, verified]
    constructor
    · refine List.Nodup.append once.nodup (FinMap.nodup_sortedKeys engine.headers) ?_
      intro number wasReleased isStored
      obtain ⟨header, found⟩ := Finmap.mem_iff.mp (FinMap.mem_numbers.mp isStored)
      obtain ⟨notVerified, above⟩ := new unbroken number header found
      rcases once.known number wasReleased with low | ⟨header', found', verified'⟩
      · omega
      · obtain rfl := Option.some.inj (found.symm.trans found')
        simp [notVerified] at verified'
    · intro number member
      rcases List.mem_append.mp member with was | isStored
      · refine (once.known number was).imp_right ?_
        rintro ⟨header, found, _⟩
        exact verifiedAt_modifyAll (Finmap.mem_of_lookup_eq_some found)
      · exact Or.inr (verifiedAt_modifyAll (FinMap.mem_numbers.mp isStored))
  · rw [none, List.append_nil, same]
    exact ⟨once.nodup, once.known⟩

/-- A local head that does not go down drops only headers that it covers. -/
theorem ReleasedOnce.updateLocalHead {engine : SyncEngine} (once : ReleasedOnce past engine)
    {newHead : Nat} (up : engine.localHead ≤ newHead)
    : ∀ number ∈ released past engine,
        number ≤ (engine.updateLocalHead newHead).localHead
        ∨ VerifiedAt (engine.updateLocalHead newHead).headers number := by
  obtain ⟨_, _, moved, _⟩ := engine.updateLocalHead_cases newHead
  rw [moved]
  intro number member
  by_cases low : number ≤ newHead
  · exact Or.inl low
  · rcases once.known number member with below | ⟨header, found, verified⟩
    · omega
    · refine Or.inr ⟨header, ?_, verified⟩
      rw [FinMap.lookup_eraseAll, if_neg, found]
      intro erased
      exact low (of_decide_eq_true (List.mem_filter.mp erased).2)

/-- A call that verifies only new headers releases no number again. -/
theorem ReleasedOnce.call (once : ReleasedOnce past turn.before)
    (returns : call turn.op turn.before = some (turn.reply, turn.after))
    (new : turn.before.VerifiesNew turn.op)
    : ReleasedOnce (past ++ [turn]) turn.after := by
  have releases := released_turn past returns
  obtain ⟨_, sameAfter⟩ := turn_of_call returns
  by_cases isVerify : turn.op = .verifyChain
  · rw [isVerify] at new releases sameAfter
    obtain ⟨nodup, known⟩ := once.verifyChain new _ releases
    have after : turn.after = turn.before.verifyChain.2 := sameAfter
    refine ⟨nodup, fun number member => ?_⟩
    rw [after]
    exact known number member
  · have nothing : turn.before.newlyVerified turn.op = [] := by
      cases op : turn.op with
      | verifyChain => exact absurd op isVerify
      | _ => rfl
    rw [nothing, List.append_nil] at releases
    refine ⟨releases ▸ once.nodup, ?_⟩
    rw [releases, sameAfter]
    by_cases isMove : ∃ newHead, turn.op = .updateLocalHead newHead
    · obtain ⟨newHead, isMove⟩ := isMove
      rw [isMove] at new ⊢
      exact once.updateLocalHead new
    · obtain ⟨sameHead, keeps⟩ :=
        turn.before.frame_run (fun newHead move => isMove ⟨newHead, move⟩) isVerify
      rw [sameHead]
      exact fun number member => (once.known number member).imp_right (keeps number).mpr

/-- Block 1 is downloaded, released and imported. -/
def oneBlock : List SyncOp :=
  [ .onPeerStatus "peer1" 1 1
  , .onHeadersReceived [numberedHeader 1]
  , .onBodiesReceived [1]
  , .verifyChain
  , .drainImportReady
  , .updateLocalHead 1 ]

-----------------------------------------------------------------------------------------
-- Something twice
-----------------------------------------------------------------------------------------

/-- Only verification verifies: any other operation leaves no header verified that was not. -/
theorem verifiedAt_of_run {engine : SyncEngine} {op : SyncOp} (noVerify : op ≠ .verifyChain)
    {number : Nat} (after : VerifiedAt (engine.run op).headers number)
    : VerifiedAt engine.headers number := by
  by_cases isMove : ∃ newHead, op = .updateLocalHead newHead
  · obtain ⟨newHead, rfl⟩ := isMove
    obtain ⟨_, _, moved, _⟩ := engine.updateLocalHead_cases newHead
    obtain ⟨header, found, verified⟩ := after
    simp only [run, moved, FinMap.lookup_eraseAll] at found
    split at found
    next => simp at found
    next => exact ⟨header, found, verified⟩
  · have frame := engine.frame_run (fun newHead move => isMove ⟨newHead, move⟩) noVerify
    exact (frame.2 number).mp after

/-- Verified headers have been released, by the call that verified them. -/
theorem mem_released_of_verifiedAt
    (known : ∀ number, VerifiedAt turn.before.headers number → number ∈ released past turn.before)
    (returns : call turn.op turn.before = some (turn.reply, turn.after))
    : ∀ number, VerifiedAt turn.after.headers number →
        number ∈ released (past ++ [turn]) turn.after := by
  intro number after
  rw [released_turn past returns, List.mem_append]
  obtain ⟨_, sameAfter⟩ := turn_of_call returns
  rw [sameAfter] at after
  by_cases isVerify : turn.op = .verifyChain
  · rw [isVerify] at after ⊢
    rcases turn.before.verifyChain_cases with ⟨unbroken, _, verified⟩ | ⟨_, same⟩
    · right
      obtain ⟨header, found, _⟩ := after
      have stored : number ∈ turn.before.headers := by
        change turn.before.verifyChain.2.headers.lookup number = some header at found
        rw [verified] at found
        have nodup : turn.before.headers.numbers.Nodup :=
          FinMap.nodup_sortedKeys turn.before.headers
        simp only [FinMap.lookup_modifyAll nodup] at found
        split at found
        next listed => exact FinMap.mem_numbers.mp listed
        next => exact Finmap.mem_of_lookup_eq_some found
      rw [newlyVerified, if_pos unbroken]
      exact FinMap.mem_numbers.mpr stored
    · left
      change VerifiedAt turn.before.verifyChain.2.headers number at after
      rw [same] at after
      exact known number after
  · exact Or.inl (known number (verifiedAt_of_run isVerify after))

/-- In every run that verifies only new headers, no number is drained twice. And in any run, a
verification that finds a header verified before leads to a number that is drained twice.
-/
theorem noDoubleImport_run (localHead : Nat) (config : SyncConfig) (ops : List SyncOp)
    : (Throughout VerifiesNew ops (.new localHead config) →
          (drainedBy (CallTrace.calls call ops (.new localHead config))).Nodup)
      ∧ ((∃ number, VerifiedAt ((new localHead config).runAll ops).headers number)
        → brokenAt ((new localHead config).runAll ops).headers
            ((new localHead config).runAll ops).headers.numbers = none
        → ¬ (drainedBy (CallTrace.calls call (ops ++ [.verifyChain, .drainImportReady])
              (.new localHead config))).Nodup) := by
  constructor
  · have start : ReleasedOnce [] (.new localHead config) :=
      ⟨List.nodup_nil, fun _ member => absurd member List.not_mem_nil⟩
    have atEnd := @CallTrace.past_invariant_final _ _ _ call
      (fun past engine =>
        (∀ turn ∈ past, VerifiesNew turn.before turn.op) → ReleasedOnce past engine)
      (fun past turn once returns new =>
        (once fun earlier member => new earlier (List.mem_append_left _ member)).call returns
          (new turn (List.mem_append_right past (List.mem_singleton_self turn))))
      ops (.new localHead config) [] (fun _ => start)
    rw [List.nil_append] at atEnd
    exact fun new => (List.nodup_append.mp (atEnd new).nodup).1
  · rintro ⟨number, verified⟩ unbroken nodup
    have start (number : Nat) : ¬ VerifiedAt (new localHead config).headers number := by
      rintro ⟨_, found, _⟩
      simp [new] at found
    have known := @CallTrace.past_invariant_final _ _ _ call
      (fun past engine =>
        ∀ number, VerifiedAt engine.headers number → number ∈ released past engine)
      (fun past turn known returns => mem_released_of_verifiedAt known returns)
      ops (.new localHead config) []
      (fun number verified => absurd verified (start number))
    rw [List.nil_append, final_call] at known
    rw [CallTrace.calls_append_of_returns call_returns, final_call] at nodup
    generalize (new localHead config).runAll ops = engine at verified unbroken known nodup
    have wasReleased := known number verified
    have stored : number ∈ engine.headers.numbers := by
      obtain ⟨_, found, _⟩ := verified
      exact FinMap.mem_numbers.mpr (Finmap.mem_of_lookup_eq_some found)
    have drained
        : drainedBy (CallTrace.calls call [.verifyChain, .drainImportReady] engine)
          = engine.importReady ++ engine.headers.numbers := by
      rcases engine.verifyChain_cases with ⟨_, _, verifies⟩ | ⟨none, _⟩
      · change [] ++ (engine.verifyChain.2.importReady ++ []) = _
        rw [verifies, List.nil_append, List.append_nil]
      · rw [newlyVerified, if_pos unbroken] at none
        rw [none] at stored
        simp at stored
    have appended (past : List (ReturnedCall SyncEngine SyncOp SyncReply))
        : drainedBy (past ++ CallTrace.calls call [.verifyChain, .drainImportReady] engine)
          = released past engine ++ engine.headers.numbers := by
      rw [released, List.append_assoc, ← drained]
      exact List.flatMap_append
    rw [appended] at nodup
    exact List.disjoint_of_nodup_append nodup wasReleased stored

theorem noDoubleImport_run_oneBlock
    : (drainedBy (CallTrace.calls call oneBlock (.new 0 .default))).Nodup := by
  refine (noDoubleImport_run 0 .default oneBlock).1
    (.cons trivial (.cons trivial (.cons trivial (.cons ?_ (.cons trivial (.cons ?_
      (throughout_nil _ _)))))))
  · intro _ number header found
    have stored := FinMap.mem_numbers.mpr (Finmap.mem_of_lookup_eq_some found)
    have isOne : number ∈ [1] := by
      convert stored using 1
      decide +kernel
    obtain rfl := List.mem_singleton.mp isOne
    have there := congrArg (Option.map (fun header => header.verified)) found
    refine ⟨?_, Nat.zero_lt_one⟩
    have isFalse : some false = some header.verified := by
      rw [← Option.map_some (f := fun header : SyncedHeader => header.verified), ← there]
      decide +kernel
    exact (Option.some.inj isFalse).symm
  · exact Nat.zero_le 1

/-- A new target while block 1 waits for its import: the second verification releases block 1
again.
-/
theorem noDoubleImport_fails
    : ¬ (drainedBy (CallTrace.calls call
          [ .onPeerStatus "peer1" 1 1
          , .onHeadersReceived [numberedHeader 1]
          , .onBodiesReceived [1]
          , .verifyChain
          , .onPeerStatus "peer1" 2 2
          , .onHeadersReceived [numberedHeader 2]
          , .onBodiesReceived [2]
          , .verifyChain
          , .drainImportReady ]
          (new 0 .default))).Nodup := by
  decide +kernel

-----------------------------------------------------------------------------------------
-- Synced
-----------------------------------------------------------------------------------------

/-- An unbroken chain is verified only when it reaches the target. -/
def VerifiesUpToTarget (engine : SyncEngine) : SyncOp → Prop
  | .verifyChain =>
      engine.headers.numbers ≠ [] →
      brokenAt engine.headers engine.headers.numbers = none →
      ∀ target, engine.target = some target → target.bestBlock ≤ engine.headers.highest
  | _ => True

/-- A synced engine has released its target, or a block above it. -/
def TargetReleased (past : List (ReturnedCall SyncEngine SyncOp SyncReply)) (engine : SyncEngine)
    : Prop :=
  engine.state = .synced →
  ∀ target, engine.target = some target →
    ∃ number ∈ released past engine, target.bestBlock ≤ number

/-- Beside verification, nothing makes an engine synced that keeps a target. -/
theorem synced_of_run {engine : SyncEngine} {op : SyncOp} (noVerify : op ≠ .verifyChain)
    (synced : (engine.run op).state = .synced) {target : SyncTarget}
    (recorded : (engine.run op).target = some target)
    : engine.state = .synced ∧ engine.target = some target := by
  cases op with
  | verifyChain => exact absurd rfl noVerify
  | banPeer peerId => exact ⟨synced, recorded⟩
  | onPeerStatus peerId bestBlock bestHash =>
      unfold run at synced recorded
      rcases engine.onPeerStatus_cases peerId bestBlock bestHash with same | ⟨_, _, same⟩
      · simp only [same] at synced recorded
        exact ⟨synced, recorded⟩
      · -- a new target leaves no engine synced
        simp only [same] at synced
        split at synced
        next => exact absurd synced (by decide)
        next unsynced => exact absurd synced unsynced
  | updateLocalHead newHead =>
      unfold run at synced recorded
      obtain ⟨_, _, moved, ⟨rfl, rfl⟩ | ⟨rfl, rfl⟩⟩ := engine.updateLocalHead_cases newHead
      · simp only [moved] at synced recorded
        exact ⟨synced, recorded⟩
      · simp [moved] at recorded
  | pollHeaderRequests =>
      obtain ⟨_, _, frame⟩ := engine.pollHeaderRequests_frame
      unfold run at synced recorded
      rw [frame] at synced recorded
      exact ⟨synced, recorded⟩
  | onHeadersReceived headers =>
      cases headers with
      | nil => exact ⟨synced, recorded⟩
      | cons first rest =>
          refine ⟨?_, recorded⟩
          unfold run onHeadersReceived at synced
          simp only at synced
          split at synced
          next => exact synced
          next =>
            split at synced
            next => exact absurd synced (by decide)
            next => exact synced
  | pollBodyRequests =>
      obtain ⟨_, _, frame⟩ := engine.pollBodyRequests_frame
      unfold run at synced recorded
      rw [frame] at synced recorded
      exact ⟨synced, recorded⟩
  | onBodiesReceived hashes =>
      refine ⟨?_, recorded⟩
      unfold run onBodiesReceived at synced
      simp only at synced
      split at synced
      next => exact absurd synced (by decide)
      next => exact synced
  | tick order =>
      refine ⟨?_, recorded⟩
      unfold run tick at synced
      simp only at synced
      split at synced
      next => exact absurd synced (by decide)
      next => exact synced
  | drainImportReady => exact ⟨synced, recorded⟩

/-- A call that verifies up to the target at least leaves a synced engine whose target is
released.
-/
theorem TargetReleased.call (isReleased : TargetReleased past turn.before)
    (returns : call turn.op turn.before = some (turn.reply, turn.after))
    (upToTarget : turn.before.VerifiesUpToTarget turn.op)
    : TargetReleased (past ++ [turn]) turn.after := by
  obtain ⟨_, sameAfter⟩ := turn_of_call returns
  have releases := released_turn past returns
  intro synced target recorded
  rw [releases]
  rw [sameAfter] at synced recorded
  have before (synced : turn.before.state = .synced) (recorded : turn.before.target = some target)
      : ∃ number ∈ released past turn.before ++ turn.before.newlyVerified turn.op,
          target.bestBlock ≤ number := by
    obtain ⟨number, member, above⟩ := isReleased synced target recorded
    exact ⟨number, List.mem_append_left _ member, above⟩
  by_cases isVerify : turn.op = .verifyChain
  · rw [isVerify] at synced recorded before upToTarget ⊢
    change turn.before.verifyChain.2.state = .synced at synced
    change turn.before.verifyChain.2.target = some target at recorded
    rcases turn.before.verifyChain_cases with ⟨unbroken, some, verified⟩ | ⟨_, same⟩
    · rw [verified] at recorded
      obtain ⟨first, listed⟩ := List.exists_mem_of_ne_nil _ some
      refine ⟨turn.before.headers.highest, List.mem_append_right _ ?_,
        upToTarget some unbroken target recorded⟩
      rw [newlyVerified, if_pos unbroken]
      exact FinMap.mem_numbers.mpr (FinMap.highest_mem (FinMap.mem_numbers.mp listed))
    · rw [same] at synced recorded
      exact before synced recorded
  · obtain ⟨wasSynced, wasRecorded⟩ := synced_of_run isVerify synced recorded
    exact before wasSynced wasRecorded

/-- The engine is synced, nothing waits to be drained and the local head has reached every
drained number.
-/
structure Confirmed (past : List (ReturnedCall SyncEngine SyncOp SyncReply)) (engine : SyncEngine)
    : Prop where
  synced : engine.state = .synced
  noneReady : engine.importReady = []
  reached : ∀ number ∈ drainedBy past, number ≤ engine.localHead

/-- The calls that verify, drain and confirm everything below a block. -/
def importBelow (block : Nat) : List SyncOp :=
  [.verifyChain, .drainImportReady, .updateLocalHead (block - 1)]

/-- Where everything released and stored is below the target, the verification leaves a synced
engine with that target above the local head.
-/
theorem importBelow_target {engine : SyncEngine} {target : SyncTarget}
    (recorded : engine.target = some target) (some : engine.headers.numbers ≠ [])
    (unbroken : brokenAt engine.headers engine.headers.numbers = none)
    (below
      : ∀ number ∈ released past engine ++ engine.headers.numbers, number < target.bestBlock)
    : Confirmed (past ++ CallTrace.calls call (importBelow target.bestBlock) engine)
          (engine.runAll (importBelow target.bestBlock))
        ∧ (engine.runAll (importBelow target.bestBlock)).target = Option.some target
        ∧ (engine.runAll (importBelow target.bestBlock)).localHead < target.bestBlock := by
  obtain ⟨first, listed⟩ := List.exists_mem_of_ne_nil _ some
  have positive := below first (List.mem_append_right _ listed)
  have verified := (engine.verifyChain_cases.resolve_right (by
    rintro ⟨none, _⟩
    rw [newlyVerified, if_pos unbroken] at none
    exact some none)).2.2
  have drained
      : drainedBy (past ++ CallTrace.calls call (importBelow target.bestBlock) engine)
        = released past engine ++ engine.headers.numbers := by
    change (past ++ _).flatMap _ = _
    rw [List.flatMap_append, released, List.append_assoc]
    congr 1
    change [] ++ (engine.verifyChain.2.importReady ++ ([] ++ [])) = _
    rw [verified]
    simp
  have atEnd
      : engine.runAll (importBelow target.bestBlock)
        = (engine.verifyChain.2.drainImportReady.2).updateLocalHead (target.bestBlock - 1) := rfl
  have noReach : ¬ target.bestBlock - 1 ≥ target.bestBlock := by omega
  rw [atEnd, verified]
  unfold updateLocalHead drainImportReady
  simp only [recorded, if_neg noReach]
  refine ⟨⟨rfl, rfl, fun number member => ?_⟩, trivial, by omega⟩
  rw [drained] at member
  have := below number member
  simp only
  omega

/-- In every run that verifies up to the target at least, a synced engine has released its
target, and one that has confirmed all it has drained has no target above the local head. And in
any run, a verification that ends below the target, where nothing above it has been released,
leads to such an engine with a target above the local head.
-/
theorem syncedCaughtUp_run (localHead : Nat) (config : SyncConfig) (ops : List SyncOp)
    : (Throughout VerifiesUpToTarget ops (.new localHead config) →
        TargetReleased (CallTrace.calls call ops (.new localHead config))
            ((new localHead config).runAll ops)
          ∧ (Confirmed (CallTrace.calls call ops (.new localHead config))
                ((new localHead config).runAll ops) →
              ∀ target, ((new localHead config).runAll ops).target = some target →
                target.bestBlock ≤ ((new localHead config).runAll ops).localHead))
      ∧ ∀ target, ((new localHead config).runAll ops).target = some target →
          ((new localHead config).runAll ops).headers.numbers ≠ [] →
          brokenAt ((new localHead config).runAll ops).headers
            ((new localHead config).runAll ops).headers.numbers = none →
          (∀ number ∈ released (CallTrace.calls call ops (.new localHead config))
                ((new localHead config).runAll ops)
              ++ ((new localHead config).runAll ops).headers.numbers,
            number < target.bestBlock) →
          Confirmed
              (CallTrace.calls call (ops ++ importBelow target.bestBlock) (.new localHead config))
              ((new localHead config).runAll (ops ++ importBelow target.bestBlock))
            ∧ ((new localHead config).runAll (ops ++ importBelow target.bestBlock)).target
              = some target
            ∧ ((new localHead config).runAll (ops ++ importBelow target.bestBlock)).localHead
              < target.bestBlock := by
  constructor
  · have start : TargetReleased [] (.new localHead config) := by
      intro _ target recorded
      exact absurd recorded (by simp [new])
    intro upToTarget
    have atEnd := @CallTrace.past_invariant_final _ _ _ call
      (fun past engine =>
        (∀ turn ∈ past, VerifiesUpToTarget turn.before turn.op) → TargetReleased past engine)
      (fun past turn isReleased returns upToTarget =>
        (isReleased fun earlier member =>
          upToTarget earlier (List.mem_append_left _ member)).call returns
            (upToTarget turn (List.mem_append_right past (List.mem_singleton_self turn))))
      ops (.new localHead config) [] (fun _ => start)
    rw [List.nil_append, final_call] at atEnd
    refine ⟨atEnd upToTarget, fun confirmed target recorded => ?_⟩
    obtain ⟨number, member, above⟩ := atEnd upToTarget confirmed.synced target recorded
    rw [released, confirmed.noneReady, List.append_nil] at member
    exact above.trans (confirmed.reached number member)
  · intro target recorded some unbroken below
    rw [CallTrace.calls_append_of_returns call_returns, final_call, runAll_append]
    exact importBelow_target recorded some unbroken below

theorem syncedCaughtUp_run_oneBlock
    : TargetReleased (CallTrace.calls call oneBlock (.new 0 .default))
        ((new 0 .default).runAll oneBlock) := by
  refine ((syncedCaughtUp_run 0 .default oneBlock).1
    (.cons trivial (.cons trivial (.cons trivial (.cons ?_ (.cons trivial (.cons trivial
      (throughout_nil _ _)))))))).1
  intro _ _ target recorded
  have isFirst
      : some target = some { bestBlock := 1, bestHash := 1, peerId := "peer1" } := by
    rw [← recorded]
    decide +kernel
  obtain rfl := Option.some.inj isFirst
  decide +kernel

/-- Block 1 is imported; the target is raised while it is downloaded. -/
def raisedMeanwhile : List SyncOp :=
  [ .onPeerStatus "peer1" 1 1
  , .onHeadersReceived [numberedHeader 1]
  , .onPeerStatus "peer2" 2 2
  , .onBodiesReceived [1]
  , .verifyChain
  , .drainImportReady
  , .updateLocalHead 1 ]

/-- The engine is synced when block 1 is imported, and block 2 is above its local head. -/
theorem syncedCaughtUp_fails
    : ¬ (Confirmed (CallTrace.calls call raisedMeanwhile (new 0 .default))
            ((new 0 .default).runAll raisedMeanwhile) →
          ∀ target, ((new 0 .default).runAll raisedMeanwhile).target = some target →
            target.bestBlock ≤ ((new 0 .default).runAll raisedMeanwhile).localHead) := by
  intro caughtUp
  have reached :=
    caughtUp ⟨by decide +kernel, by decide +kernel, by decide +kernel⟩
      { bestBlock := 2, bestHash := 2, peerId := "peer2" } (by decide +kernel)
  exact absurd reached (by decide +kernel)

end SyncEngine

end VeloChain
