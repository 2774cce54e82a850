import VeloChain.Network.Sync

/-! What the sync engine releases for import.
Verification runs over whatever is stored. Where it runs only over complete headers that begin
after the local head, and the head does not move under a range that waits for import, every
released range can be imported.
-/

namespace VeloChain

/-- The operations of the sync engine. -/
inductive SyncOp
  | banPeer (peerId : String)
  | onPeerStatus (peerId : String) (bestBlock : Nat) (bestHash : B256)
  | updateLocalHead (newHead : Nat)
  | pollHeaderRequests
  | onHeadersReceived (headers : List ReceivedHeader)
  | pollBodyRequests
  | onBodiesReceived (hashes : List B256)
  | verifyChain
  | tick (order : RequestOrder)
  | drainImportReady

namespace SyncEngine

/-- The engine after an operation. -/
def run (engine : SyncEngine) : SyncOp → SyncEngine
  | .banPeer peerId => engine.banPeer peerId
  | .onPeerStatus peerId bestBlock bestHash => engine.onPeerStatus peerId bestBlock bestHash
  | .updateLocalHead newHead => engine.updateLocalHead newHead
  | .pollHeaderRequests => engine.pollHeaderRequests.2
  | .onHeadersReceived headers => (engine.onHeadersReceived headers).2
  | .pollBodyRequests => engine.pollBodyRequests.2
  | .onBodiesReceived hashes => (engine.onBodiesReceived hashes).2
  | .verifyChain => engine.verifyChain.2
  | .tick order => (engine.tick order).2
  | .drainImportReady => engine.drainImportReady.2

/-- The engine after a run of operations. -/
def runAll (ops : List SyncOp) (engine : SyncEngine) : SyncEngine := ops.foldl run engine

/-- A number and the next one, with headers that are linked. -/
def LinkedAt (headers : FinMap Nat SyncedHeader) (a b : Nat) : Prop :=
  b = a + 1
  ∧ ∃ parent header,
      headers.lookup a = some parent
      ∧ headers.lookup b = some header
      ∧ header.parentHash = parent.hash

/-- The header of a number and its body are there. -/
def CompleteAt (headers : FinMap Nat SyncedHeader) (number : Nat) : Prop :=
  ∃ header, headers.lookup number = some header ∧ header.bodyDownloaded = true

/-- A linked range of complete blocks that begins after the local head. -/
structure Importable (engine : SyncEngine) (range : List Nat) : Prop where
  first : range.head? = some (engine.localHead + 1)
  linked : List.IsChain (LinkedAt engine.headers) range
  complete : ∀ number ∈ range, CompleteAt engine.headers number

/-- Everything that is released comes in importable ranges. -/
def ReleasesImportable (engine : SyncEngine) : Prop :=
  ∃ ranges : List (List Nat),
    engine.drainImportReady.1 = ranges.flatten ∧ ∀ range ∈ ranges, engine.Importable range

/-- A chain is verified only when its headers begin after the local head and all have their
bodies, and the head moves only when nothing waits for import.
-/
def Orderly (engine : SyncEngine) : SyncOp → Prop
  | .verifyChain =>
      brokenAt engine.headers engine.headers.numbers = none →
      ∀ first, engine.headers.numbers.head? = some first →
        first = engine.localHead + 1
        ∧ engine.headers.values.all SyncedHeader.bodyDownloaded
  | .updateLocalHead newHead => engine.importReady = [] ∨ newHead = engine.localHead
  | _ => True

/-- Every operation of a run is orderly where it happens. -/
def OrderlyRun : List SyncOp → SyncEngine → Prop
  | [], _ => True
  | op :: rest, engine => engine.Orderly op ∧ OrderlyRun rest (engine.run op)

-----------------------------------------------------------------------------------------
-- Operations that keep what is stored
-----------------------------------------------------------------------------------------

/-- The stored headers stay, and keep their links and their bodies. -/
def KeepsHeaders (before after : FinMap Nat SyncedHeader) : Prop :=
  ∀ number header, before.lookup number = some header →
    ∃ header',
      after.lookup number = some header'
      ∧ header'.hash = header.hash
      ∧ header'.parentHash = header.parentHash
      ∧ (header.bodyDownloaded = true → header'.bodyDownloaded = true)

theorem KeepsHeaders.refl (headers : FinMap Nat SyncedHeader) : KeepsHeaders headers headers :=
  fun _ header found => ⟨header, found, rfl, rfl, id⟩

theorem KeepsHeaders.trans {first second third : FinMap Nat SyncedHeader}
    (before : KeepsHeaders first second) (after : KeepsHeaders second third)
    : KeepsHeaders first third := by
  intro number header found
  obtain ⟨middle, found', hash, parentHash, body⟩ := before number header found
  obtain ⟨last, found'', hash', parentHash', body'⟩ := after number middle found'
  exact ⟨last, found'', hash'.trans hash, parentHash'.trans parentHash, body' ∘ body⟩

/-- A received header displaces none. -/
theorem keepsHeaders_storeHeader (headers : FinMap Nat SyncedHeader)
    (received : ReceivedHeader)
    : KeepsHeaders headers (storeHeader headers received) := by
  unfold storeHeader
  simp only
  split
  next => exact .refl _
  next fresh =>
    intro number header found
    refine ⟨header, ?_, rfl, rfl, id⟩
    rw [FinMap.lookup_insert_eq, if_neg, found]
    intro same
    exact fresh (same ▸ Finmap.mem_of_lookup_eq_some found)

/-- An update that keeps the links and the body of every header. -/
theorem keepsHeaders_modifyAll {keys : List Nat} (nodup : keys.Nodup)
    {update : SyncedHeader → SyncedHeader}
    (keeps
      : ∀ header,
          (update header).hash = header.hash
          ∧ (update header).parentHash = header.parentHash
          ∧ (header.bodyDownloaded = true → (update header).bodyDownloaded = true))
    (headers : FinMap Nat SyncedHeader)
    : KeepsHeaders headers (headers.modifyAll keys update) := by
  intro number header found
  rw [FinMap.lookup_modifyAll nodup]
  split
  next => exact ⟨update header, by rw [found, Option.map_some], keeps header⟩
  next => exact ⟨header, found, rfl, rfl, id⟩

theorem keepsHeaders_matchBody (matched : Nat × FinMap Nat SyncedHeader) (hash : B256)
    : KeepsHeaders matched.2 (matchBody matched hash).2 := by
  unfold matchBody
  cases awaiting matched.2 hash with
  | none => exact .refl _
  | some number =>
      exact @keepsHeaders_modifyAll [number] (List.nodup_singleton number)
        (fun header => { header with bodyDownloaded := true })
        (fun _ => ⟨rfl, rfl, fun _ => rfl⟩) matched.2

/-- What a loop keeps with every turn it keeps as a whole. -/
theorem keepsHeaders_foldl {α σ : Type} {step : σ → α → σ}
    (headers : σ → FinMap Nat SyncedHeader)
    (keeps : ∀ state item, KeepsHeaders (headers state) (headers (step state item)))
    (items : List α) (state : σ)
    : KeepsHeaders (headers state) (headers (items.foldl step state)) := by
  induction items generalizing state with
  | nil => exact .refl _
  | cons item rest ih => exact (keeps state item).trans (ih (step state item))

/-- Issuing header requests changes only the pending header requests. -/
theorem issueHeaderRequests_frame (target : SyncTarget) (more start : Nat)
    (engine : SyncEngine)
    : ∃ nextRequestId headerRequests,
        (issueHeaderRequests target more start engine).2
          = { engine with nextRequestId, headerRequests } := by
  induction more generalizing start engine with
  | zero => exact ⟨_, _, rfl⟩
  | succ more ih =>
      unfold issueHeaderRequests
      split
      next => exact ⟨_, _, rfl⟩
      next =>
        obtain ⟨nextRequestId, headerRequests, rest⟩ := ih _ _
        exact ⟨nextRequestId, headerRequests, rest⟩

theorem pollHeaderRequests_frame (engine : SyncEngine)
    : ∃ nextRequestId headerRequests,
        engine.pollHeaderRequests.2 = { engine with nextRequestId, headerRequests } := by
  unfold pollHeaderRequests
  split
  next => exact ⟨_, _, rfl⟩
  next =>
    split
    next => exact ⟨_, _, rfl⟩
    next => exact issueHeaderRequests_frame _ _ _ _

/-- Issuing body requests changes only the pending body requests. -/
theorem pollBodyRequests_frame (engine : SyncEngine)
    : ∃ nextRequestId bodyRequests,
        engine.pollBodyRequests.2 = { engine with nextRequestId, bodyRequests } := by
  have issued (pieces : List (List B256))
      (start : List (Nat × List B256 × Option String) × SyncEngine)
      : ∃ nextRequestId bodyRequests,
          (pieces.foldl issueBodyRequest start).2
            = { start.2 with nextRequestId, bodyRequests } := by
    induction pieces generalizing start with
    | nil => exact ⟨_, _, rfl⟩
    | cons hashes rest ih =>
        obtain ⟨nextRequestId, bodyRequests, same⟩ := ih (issueBodyRequest start hashes)
        exact ⟨nextRequestId, bodyRequests, same⟩
  unfold pollBodyRequests
  split
  next => exact ⟨_, _, rfl⟩
  next => exact issued _ _

-----------------------------------------------------------------------------------------
-- Importable ranges
-----------------------------------------------------------------------------------------

/-- A range stays importable while the local head stays and the headers are kept. -/
theorem Importable.mono {before after : SyncEngine} {range : List Nat}
    (importable : before.Importable range) (sameHead : after.localHead = before.localHead)
    (keeps
      : ∀ number ∈ range, ∀ header, before.headers.lookup number = some header →
          ∃ header',
            after.headers.lookup number = some header'
            ∧ header'.hash = header.hash
            ∧ header'.parentHash = header.parentHash
            ∧ (header.bodyDownloaded = true → header'.bodyDownloaded = true))
    : after.Importable range := by
  refine ⟨by rw [importable.first, sameHead], ?_, ?_⟩
  · apply importable.linked.imp_of_mem_imp
    rintro a b isA isB ⟨next, parent, header, foundA, foundB, linked⟩
    obtain ⟨parent', foundA', hash, _⟩ := keeps a isA parent foundA
    obtain ⟨header', foundB', _, parentHash, _⟩ := keeps b isB header foundB
    exact ⟨next, parent', header', foundA', foundB', by rw [parentHash, linked, hash]⟩
  · intro number member
    obtain ⟨header, found, complete⟩ := importable.complete number member
    obtain ⟨header', found', _, _, body⟩ := keeps number member header found
    exact ⟨header', found', body complete⟩

/-- Every number of an importable range is after the local head. -/
theorem Importable.localHead_lt {engine : SyncEngine} {range : List Nat}
    (importable : engine.Importable range) {number : Nat} (member : number ∈ range)
    : engine.localHead < number := by
  have rising : List.IsChain (· < ·) range :=
    importable.linked.imp (fun a b (linked : LinkedAt engine.headers a b) =>
      linked.1 ▸ Nat.lt_succ_self a)
  have sorted := List.isChain_iff_pairwise.mp rising
  cases range with
  | nil => simp at member
  | cons first rest =>
      have start := Option.some.inj importable.first
      rcases List.mem_cons.mp member with rfl | later
      · omega
      · have := (List.pairwise_cons.mp sorted).1 number later
        omega

/-- What is released stays importable while nothing more is released, the local head stays and
the headers are kept.
-/
theorem ReleasesImportable.mono {before after : SyncEngine}
    (releases : before.ReleasesImportable) (sameReady : after.importReady = before.importReady)
    (sameHead : after.localHead = before.localHead)
    (keeps : KeepsHeaders before.headers after.headers)
    : after.ReleasesImportable := by
  obtain ⟨ranges, split, importable⟩ := releases
  exact ⟨ranges, sameReady.trans split,
    fun range member => (importable range member).mono sameHead (fun number _ => keeps number)⟩

/-- A verified chain is linked from number to number. -/
theorem isChain_of_brokenAt {headers : FinMap Nat SyncedHeader} {numbers : List Nat}
    (stored : ∀ number ∈ numbers, number ∈ headers)
    (unbroken : brokenAt headers numbers = none)
    : List.IsChain (LinkedAt headers) numbers := by
  induction numbers with
  | nil => exact .nil
  | cons a rest ih =>
      cases rest with
      | nil => exact .singleton a
      | cons b rest =>
          unfold brokenAt at unbroken
          split at unbroken
          next => simp at unbroken
          next next_ =>
            split at unbroken
            next => simp at unbroken
            next linked =>
              obtain ⟨parent, foundA⟩ := Finmap.mem_iff.mp (stored a List.mem_cons_self)
              obtain ⟨header, foundB⟩ :=
                Finmap.mem_iff.mp (stored b (List.mem_cons_of_mem a List.mem_cons_self))
              rw [foundA, foundB] at linked
              refine .cons_cons ⟨not_not.mp next_, parent, header, foundA, foundB, ?_⟩
                (ih (fun number member => stored number (List.mem_cons_of_mem a member)) unbroken)
              exact Option.some.inj (not_not.mp linked)

-----------------------------------------------------------------------------------------
-- Runs
-----------------------------------------------------------------------------------------

theorem releasesImportable_of_nil {engine : SyncEngine} (none : engine.importReady = [])
    : engine.ReleasesImportable :=
  ⟨[], none, by simp⟩

/-- Verification of complete headers after the local head releases one more range. -/
theorem ReleasesImportable.verifyChain {engine : SyncEngine}
    (releases : engine.ReleasesImportable) (orderly : engine.Orderly .verifyChain)
    : engine.verifyChain.2.ReleasesImportable := by
  unfold SyncEngine.verifyChain
  cases listed : engine.headers.numbers with
  | nil => exact releases
  | cons first rest =>
      simp only
      cases broken : brokenAt engine.headers (first :: rest) with
      | some atBlock => exact releases
      | none =>
          obtain ⟨begins, complete⟩ := orderly (by rw [listed, broken]) first
            (by rw [listed, List.head?_cons])
          have stored (number : Nat) (member : number ∈ first :: rest)
              : number ∈ engine.headers := by
            rw [← listed, FinMap.mem_numbers] at member
            exact member
          have new : engine.Importable (first :: rest) := by
            refine ⟨by rw [List.head?_cons, begins], isChain_of_brokenAt stored broken, ?_⟩
            intro number member
            obtain ⟨header, found⟩ := Finmap.mem_iff.mp (stored number member)
            exact ⟨header, found,
              List.all_eq_true.mp complete header (FinMap.mem_values.mpr ⟨number, found⟩)⟩
          have keeps
              : KeepsHeaders engine.headers
                  (engine.headers.modifyAll (first :: rest)
                    (fun header => { header with verified := true })) := by
            refine @keepsHeaders_modifyAll _ ?_ (fun header => { header with verified := true })
              (fun _ => ⟨rfl, rfl, id⟩) engine.headers
            rw [← listed]
            exact FinMap.nodup_sortedKeys _
          obtain ⟨ranges, split, importable⟩ := releases
          refine ⟨ranges ++ [first :: rest], ?_, ?_⟩
          · change engine.importReady ++ (first :: rest) = _
            rw [List.flatten_append, ← split]
            simp [drainImportReady]
          · intro range member
            have before : engine.Importable range := by
              rcases List.mem_append.mp member with old | last
              · exact importable range old
              · rwa [List.mem_singleton.mp last]
            exact before.mono rfl (fun number _ => keeps number)

/-- A move of the local head that leaves nothing behind keeps the released ranges importable. -/
theorem ReleasesImportable.updateLocalHead {engine : SyncEngine}
    (releases : engine.ReleasesImportable) {newHead : Nat}
    (orderly : engine.Orderly (.updateLocalHead newHead))
    : (engine.updateLocalHead newHead).ReleasesImportable := by
  have frame
      : (engine.updateLocalHead newHead).importReady = engine.importReady
        ∧ (engine.updateLocalHead newHead).localHead = newHead
        ∧ (engine.updateLocalHead newHead).headers
          = engine.headers.eraseAll (engine.headers.numbers.filter (· ≤ newHead)) := by
    unfold SyncEngine.updateLocalHead
    simp only
    split
    next => exact ⟨rfl, rfl, rfl⟩
    next => split <;> exact ⟨rfl, rfl, rfl⟩
  obtain ⟨sameReady, isHead, remaining⟩ := frame
  rcases orderly with none | rfl
  · exact releasesImportable_of_nil (sameReady.trans none)
  · obtain ⟨ranges, split, importable⟩ := releases
    refine ⟨ranges, sameReady.trans split, fun range member => ?_⟩
    apply (importable range member).mono isHead
    intro number inRange header found
    refine ⟨header, ?_, rfl, rfl, id⟩
    have higher := (importable range member).localHead_lt inRange
    rw [remaining, FinMap.lookup_eraseAll, if_neg, found]
    intro erased
    have := (List.mem_filter.mp erased).2
    simp only [decide_eq_true_eq] at this
    omega

/-- Every orderly operation keeps what is released importable. -/
theorem ReleasesImportable.run {engine : SyncEngine} (releases : engine.ReleasesImportable)
    {op : SyncOp} (orderly : engine.Orderly op)
    : (engine.run op).ReleasesImportable := by
  cases op with
  | banPeer peerId => exact releases.mono rfl rfl (.refl _)
  | onPeerStatus peerId bestBlock bestHash =>
      unfold SyncEngine.run onPeerStatus
      simp only
      split
      next => exact releases
      next =>
        split
        next => exact releases.mono rfl rfl (.refl _)
        next => exact releases
  | updateLocalHead newHead => exact releases.updateLocalHead orderly
  | pollHeaderRequests =>
      obtain ⟨_, _, frame⟩ := engine.pollHeaderRequests_frame
      unfold SyncEngine.run
      rw [frame]
      exact releases.mono rfl rfl (.refl _)
  | onHeadersReceived headers =>
      unfold SyncEngine.run onHeadersReceived
      cases headers with
      | nil => exact releases
      | cons first rest =>
          exact releases.mono rfl rfl (keepsHeaders_foldl id keepsHeaders_storeHeader _ _)
  | pollBodyRequests =>
      obtain ⟨_, _, frame⟩ := engine.pollBodyRequests_frame
      unfold SyncEngine.run
      rw [frame]
      exact releases.mono rfl rfl (.refl _)
  | onBodiesReceived hashes =>
      exact releases.mono rfl rfl
        (keepsHeaders_foldl Prod.snd keepsHeaders_matchBody hashes (0, engine.headers))
  | verifyChain => exact releases.verifyChain orderly
  | tick order => exact releases.mono rfl rfl (.refl _)
  | drainImportReady => exact releasesImportable_of_nil rfl

/-- In every orderly run of a new engine, whatever is released is importable. -/
theorem importSafety_run (localHead : Nat) (config : SyncConfig) {ops : List SyncOp}
    (orderly : OrderlyRun ops (.new localHead config))
    : ((new localHead config).runAll ops).ReleasesImportable := by
  have start : (new localHead config).ReleasesImportable := releasesImportable_of_nil rfl
  unfold runAll
  generalize new localHead config = engine at orderly start
  induction ops generalizing engine with
  | nil => exact start
  | cons op rest ih => exact ih (engine.run op) orderly.2 (start.run orderly.1)

/-- A header whose hash is its number. -/
def numberedHeader (number : Nat) : ReceivedHeader :=
  (number, BitVec.ofNat 256 number, BitVec.ofNat 256 (number - 1))

/-- The header of the target alone, which nobody has asked for, its body and a verification:
block 5 is released after block 0.
-/
theorem importSafety_fails_on_gap
    : ¬ ((new 0 .default).runAll
        [ .onPeerStatus "peer1" 5 5
        , .onHeadersReceived [numberedHeader 5]
        , .onBodiesReceived [5]
        , .verifyChain ]).ReleasesImportable := by
  rintro ⟨ranges, split, importable⟩
  have released : [5] = ranges.flatten := by
    rw [← split]
    decide +kernel
  obtain ⟨range, isRange, _⟩ :=
    List.mem_flatten.mp (released ▸ List.mem_singleton_self 5)
  -- the range that holds 5 would begin with 1
  have first := List.mem_of_mem_head? (importable range isRange).first
  have inAll := List.mem_flatten.mpr ⟨range, isRange, first⟩
  rw [← released] at inAll
  exact absurd inAll (by decide +kernel)

theorem importSafety_run_twoBlocks
    : ((new 0 .default).runAll
        [ .onPeerStatus "peer1" 2 2
        , .onHeadersReceived [numberedHeader 1, numberedHeader 2]
        , .onBodiesReceived [1, 2]
        , .verifyChain ]).ReleasesImportable := by
  refine importSafety_run 0 .default ⟨trivial, trivial, trivial, ?_, trivial⟩
  intro _ first isFirst
  have one : some first = some 1 := by
    rw [← isFirst]
    decide +kernel
  obtain rfl := Option.some.inj one
  decide +kernel

end SyncEngine

end VeloChain
