import VeloChain.Lib.Rlp
import VeloChain.State.TwoMaps

/-! The state root and what it depends on.
A commit hashes the accounts in the read cache, so besides the committed accounts the root
depends on which of them have been read or written since the cache was last emptied.
-/

namespace VeloChain.WorldState

/-- A step in the life of a world state: reads, writes, commits, and what empties the cache. -/
inductive RootStep
  | getAccount (address : Address)
  | getBalance (address : Address)
  | getNonce (address : Address)
  | putAccount (address : Address) (account : Account)
  | commit (order : IterationOrder Address Account)
  | clearCache
  | restart

/-- A write, or a commit of the writes before it. -/
inductive RootWrite
  | put (address : Address) (account : Account)
  | commit

/-- The writes and commits among the steps. -/
def writesOf (steps : List RootStep) : List RootWrite :=
  steps.filterMap (fun step =>
    match step with
    | .putAccount address account => some (.put address account)
    | .commit _ => some .commit
    | _ => none)

section Definitions

variable (codec : Codec Account) (keccak256 : Bytes → B256)

/-- A step over the database. A restart opens a new world state over it. -/
def advance (step : RootStep) (world : WorldState × Database) : WorldState × Database :=
  let (state, db) := world
  match step with
  | .getAccount address => ((state.getAccount codec db address).2, db)
  | .getBalance address => ((state.getBalance codec db address).2, db)
  | .getNonce address => ((state.getNonce codec db address).2, db)
  | .putAccount address account => (state.putAccount address account, db)
  | .commit order => (state.commit codec db keccak256 order).2
  | .clearCache => (state.clearCache, db)
  | .restart => (.new, db)

/-- The worlds in which the commits of a run begin. -/
def atCommits : List RootStep → WorldState × Database → List (WorldState × Database)
  | [], _ => []
  | .commit order :: rest, world =>
      world :: atCommits rest (advance codec keccak256 (.commit order) world)
  | step :: rest, world => atCommits rest (advance codec keccak256 step world)

/-- The roots the commits of a run return. -/
def roots : List RootStep → WorldState × Database → List B256
  | [], _ => []
  | .commit order :: rest, world =>
      (world.1.commit codec world.2 keccak256 order).1
        :: roots rest (advance codec keccak256 (.commit order) world)
  | step :: rest, world => roots rest (advance codec keccak256 step world)

/-- The cache is only emptied while no write waits for its commit. -/
def EvictsClean : List RootStep → WorldState × Database → Prop
  | [], _ => True
  | step :: rest, world =>
      (step = .clearCache ∨ step = .restart → world.1.dirtyAccounts = ∅)
      ∧ EvictsClean rest (advance codec keccak256 step world)

/-- The accounts as they stand at each commit, from the writes alone. -/
def published : List RootWrite → TwoMaps → List (Address → Option Account)
  | [], _ => []
  | .put address account :: rest, maps => published rest (maps.write address account)
  | .commit :: rest, maps => maps.read :: published rest maps.publish

/-- The addresses in the read cache. -/
def cachedAddresses (world : WorldState × Database) : Finset Address :=
  world.1.accountCache.keys

/-- The bytes a root is the hash of: accounts under their addresses. -/
def rootMessage (accounts : List (Address × Account)) : Bytes :=
  accounts.flatMap (fun entry => addressSlice entry.1 ++ codec.encode entry.2)

/-- The cached accounts in address order. -/
def cachedAccounts (state : WorldState) : List (Address × Account) :=
  (sortedAddresses state.accountCache).filterMap (fun address =>
    (state.accountCache.lookup address).map (fun account => (address, account)))

end Definitions

variable {codec : Codec Account} {keccak256 : Bytes → B256}

/-- The state root is the hash of the cached accounts in address order. -/
theorem computeStateRoot_eq (state : WorldState)
    : computeStateRoot codec keccak256 state
      = keccak256 (rootMessage codec (cachedAccounts state)) := by
  have listed
      : ∀ addresses : List Address, (∀ address ∈ addresses, address ∈ state.accountCache) →
          addresses.flatMap (fun address =>
              addressSlice address
              ++ ((state.accountCache.lookup address).map codec.encode).getD [])
            = rootMessage codec (addresses.filterMap (fun address =>
                (state.accountCache.lookup address).map (fun account => (address, account)))) := by
    intro addresses cached
    induction addresses with
    | nil => rfl
    | cons address rest ih =>
        obtain ⟨here, later⟩ := List.forall_mem_cons.mp cached
        obtain ⟨account, found⟩ := Finmap.mem_iff.mp here
        rw [List.flatMap_cons, ih later, rootMessage, rootMessage,
          List.filterMap_cons_some (by rw [found, Option.map_some]), List.flatMap_cons, found]
        rfl
  unfold computeStateRoot cachedAccounts
  rw [listed (sortedAddresses state.accountCache)
    (fun address member => (FinMap.mem_sortedKeys _ _).mp member)]

-----------------------------------------------------------------------------------------
-- The two maps at the commits
-----------------------------------------------------------------------------------------

section Steps

/-- A step keeps coherence, and only writes and commits change the two maps, as long as the
cache is emptied without a write pending.
-/
theorem Coherent.advance (sound : codec.RoundTrips) {step : RootStep}
    {world : WorldState × Database} (coherent : Coherent codec world)
    (clean : step = .clearCache ∨ step = .restart → world.1.dirtyAccounts = ∅)
    : Coherent codec (WorldState.advance codec keccak256 step world)
      ∧ twoMaps codec (WorldState.advance codec keccak256 step world)
        = match step with
          | .putAccount address account => (twoMaps codec world).write address account
          | .commit _ => (twoMaps codec world).publish
          | _ => twoMaps codec world := by
  obtain ⟨state, db⟩ := world
  have reads (address : Address)
      : Coherent codec ((state.getAccount codec db address).2, db)
        ∧ twoMaps codec ((state.getAccount codec db address).2, db)
          = twoMaps codec (state, db) := by
    obtain ⟨next, read, kept, same⟩ := coherent.getAccount address
    rw [read]
    exact ⟨kept, same⟩
  cases step with
  | getAccount address => exact reads address
  | getBalance address =>
      have same := reads address
      unfold WorldState.advance getBalance
      rcases read : state.getAccount codec db address with ⟨_ | found, next⟩ <;>
        simpa only [read] using same
  | getNonce address =>
      have same := reads address
      unfold WorldState.advance getNonce
      rcases read : state.getAccount codec db address with ⟨_ | found, next⟩ <;>
        simpa only [read] using same
  | putAccount address account => exact coherent.putAccount address account
  | commit order => exact coherent.commit sound keccak256 order
  | clearCache =>
      have empty : state.dirtyAccounts = ∅ := clean (Or.inl rfl)
      obtain ⟨kept, reverted⟩ := coherent.clearCache
      refine ⟨kept, reverted.trans ?_⟩
      simp only [TwoMaps.revert, twoMaps, empty]
      rfl
  | restart =>
      have empty : state.dirtyAccounts = ∅ := clean (Or.inr rfl)
      refine ⟨coherent_new coherent.readable, ?_⟩
      simp only [WorldState.advance, twoMaps, empty]
      rfl

/-- The accounts at the commits of a run follow from its writes, by induction on the steps. -/
theorem Coherent.atCommits (sound : codec.RoundTrips) {steps : List RootStep}
    {world : WorldState × Database} (coherent : Coherent codec world)
    (clean : EvictsClean codec keccak256 steps world)
    : (∀ reached ∈ WorldState.atCommits codec keccak256 steps world, Coherent codec reached)
      ∧ (WorldState.atCommits codec keccak256 steps world).map
          (fun reached => (twoMaps codec reached).read)
        = published (writesOf steps) (twoMaps codec world) := by
  induction steps generalizing world with
  | nil => exact ⟨by simp [WorldState.atCommits], rfl⟩
  | cons step rest ih =>
      obtain ⟨kept, maps⟩ := @Coherent.advance codec keccak256 sound step world coherent clean.1
      obtain ⟨all, later⟩ := ih kept clean.2
      rw [maps] at later
      cases step with
      | commit order =>
          exact ⟨List.forall_mem_cons.mpr ⟨coherent, all⟩, congrArg (_ :: ·) later⟩
      | _ => exact ⟨all, later⟩

end Steps

/-- The commits of a run return the hashes of the accounts cached when they begin. -/
theorem roots_eq (steps : List RootStep) (world : WorldState × Database)
    : roots codec keccak256 steps world
      = (atCommits codec keccak256 steps world).map (fun reached =>
          keccak256 (rootMessage codec (cachedAccounts reached.1))) := by
  induction steps generalizing world with
  | nil => rfl
  | cons step rest ih =>
      cases step with
      | commit order =>
          rw [roots, atCommits, List.map_cons, ← ih]
          exact congrArg (· :: _) (computeStateRoot_eq world.1)
      | _ => exact ih _

-----------------------------------------------------------------------------------------
-- Roots and cached accounts
-----------------------------------------------------------------------------------------

section Cached

variable {world world' : WorldState × Database}

/-- The cached accounts of a coherent world are what its reads find at the cached addresses. -/
theorem Coherent.cachedAccounts (coherent : Coherent codec world)
    : WorldState.cachedAccounts world.1
      = (sortedAddresses world.1.accountCache).filterMap (fun address =>
          ((twoMaps codec world).read address).map (fun account => (address, account))) := by
  refine List.filterMap_congr (fun address member => ?_)
  obtain ⟨account, found⟩ := Finmap.mem_iff.mp ((FinMap.mem_sortedKeys _ _).mp member)
  rw [found, coherent.cached address account found]

/-- Worlds with the same accounts and the same cached addresses cache the same accounts. -/
theorem Coherent.cachedAccounts_congr (coherent : Coherent codec world)
    (coherent' : Coherent codec world')
    (sameReads : (twoMaps codec world).read = (twoMaps codec world').read)
    (sameCached : cachedAddresses world = cachedAddresses world')
    : WorldState.cachedAccounts world.1 = WorldState.cachedAccounts world'.1 := by
  have addresses
      : sortedAddresses world.1.accountCache = sortedAddresses world'.1.accountCache := by
    unfold cachedAddresses at sameCached
    unfold sortedAddresses FinMap.sortedKeys
    rw [sameCached]
  rw [coherent.cachedAccounts, coherent'.cachedAccounts, sameReads, addresses]

/-- The cached accounts tell which addresses are cached. -/
theorem cachedAddresses_of_cachedAccounts
    (same : WorldState.cachedAccounts world.1 = WorldState.cachedAccounts world'.1)
    : cachedAddresses world = cachedAddresses world' := by
  have listed (state : WorldState) (address : Address)
      : address ∈ state.accountCache.keys
        ↔ ∃ account, (address, account) ∈ WorldState.cachedAccounts state := by
    simp only [WorldState.cachedAccounts, List.mem_filterMap, Finmap.mem_keys]
    constructor
    · intro cached
      obtain ⟨account, found⟩ := Finmap.mem_iff.mp cached
      exact ⟨account, address, (FinMap.mem_sortedKeys _ _).mpr cached, by simp [found]⟩
    · rintro ⟨account, other, member, found⟩
      obtain ⟨_, _, pair⟩ := Option.map_eq_some_iff.mp found
      obtain ⟨rfl, _⟩ := Prod.mk.inj pair
      exact (FinMap.mem_sortedKeys _ _).mp member
  refine Finset.ext (fun address => ?_)
  unfold cachedAddresses
  rw [listed, listed, same]

/-- Self-delimiting account encodings make the message of a root readable. -/
theorem rootMessage_injective (delimits : Bytes.SelfDelimiting codec.encode)
    : (rootMessage codec).Injective := by
  apply Bytes.SelfDelimiting.flatMap_injective
  · intro entry other rest rest' same
    simp only [List.append_assoc] at same
    obtain ⟨address, later⟩ := List.append_inj same (by
      rw [length_addressSlice, length_addressSlice])
    obtain ⟨account, rests⟩ := delimits _ _ _ _ later
    exact ⟨Prod.ext (addressSlice_inj.mp address) account, rests⟩
  · intro entry empty
    have none := congrArg List.length empty
    simp at none

end Cached

/-- Lists that agree in two maps agree in what these two decide. -/
theorem map_eq_of_decided {α β γ δ : Type*} {f : α → β} {g : α → γ} {h : α → δ}
    {left right : List α}
    (decided : ∀ a ∈ left, ∀ b ∈ right, f a = f b → g a = g b → h a = h b)
    (sameF : left.map f = right.map f) (sameG : left.map g = right.map g)
    : left.map h = right.map h := by
  induction left generalizing right with
  | nil => rw [List.map_eq_nil_iff.mp sameF.symm]
  | cons a rest ih =>
      cases right with
      | nil => simp at sameF
      | cons b later =>
          obtain ⟨hereF, laterF⟩ := List.cons.inj sameF
          obtain ⟨hereG, laterG⟩ := List.cons.inj sameG
          rw [List.map_cons, List.map_cons,
            decided a List.mem_cons_self b List.mem_cons_self hereF hereG,
            ih (fun a ha b hb => decided a (List.mem_cons_of_mem _ ha) b
              (List.mem_cons_of_mem _ hb)) laterF laterG]

-----------------------------------------------------------------------------------------
-- Corresponding commits of two runs
-----------------------------------------------------------------------------------------

/-- Two runs with the same writes and commits over the same accounts return the same roots
where each pair of corresponding commits begins with the same addresses in the cache; and, if
encodings and hash lose nothing, only there.
-/
theorem stateRoot_run (sound : codec.RoundTrips) {world world' : WorldState × Database}
    (coherent : Coherent codec world) (coherent' : Coherent codec world')
    (sameAccounts : twoMaps codec world = twoMaps codec world') {left right : List RootStep}
    (sameWrites : writesOf left = writesOf right)
    (clean : EvictsClean codec keccak256 left world)
    (clean' : EvictsClean codec keccak256 right world')
    : let reached := atCommits codec keccak256 left world
      let reached' := atCommits codec keccak256 right world'
      (reached.map cachedAddresses = reached'.map cachedAddresses →
          roots codec keccak256 left world = roots codec keccak256 right world')
        ∧ (Bytes.SelfDelimiting codec.encode →
            Set.InjOn keccak256 { message | ∃ state ∈ reached ++ reached',
              message = rootMessage codec (cachedAccounts state.1) } →
            roots codec keccak256 left world = roots codec keccak256 right world' →
            reached.map cachedAddresses = reached'.map cachedAddresses) := by
  intro reached reached'
  obtain ⟨all, reads⟩ := coherent.atCommits sound clean
  obtain ⟨all', reads'⟩ := coherent'.atCommits sound clean'
  rw [← sameWrites, ← sameAccounts, ← reads] at reads'
  rw [roots_eq, roots_eq]
  constructor
  · intro sameCached
    refine map_eq_of_decided (fun state member state' member' accounts cached => ?_)
      reads'.symm sameCached
    rw [(all state member).cachedAccounts_congr (all' state' member') accounts cached]
  -- equal roots have equal messages, and these name the cached addresses one by one
  · intro delimits collisionFree sameRoots
    refine map_eq_of_decided (fun state member state' member' root _ => ?_)
      sameRoots reads'.symm
    have messages := collisionFree ⟨state, List.mem_append_left _ member, rfl⟩
      ⟨state', List.mem_append_right _ member', rfl⟩ root
    exact cachedAddresses_of_cachedAccounts (rootMessage_injective delimits messages)

/-- Drain the writes by ascending address. -/
def byAddress : IterationOrder Address Account :=
  FinMap.ascending BitVec.toNat Address.toNat_injective

/-- A hash that tells messages of different lengths apart. -/
def lengthHash (message : Bytes) : B256 := BitVec.ofNat 256 message.length

/-- A database with an account at address 5. -/
def oneAccount : Database :=
  Database.empty.putGameState (addressSlice 5) (Account.wordCodec.encode (.withBalance 10))

/-- The same writes, after the balance of another account has been read or not. -/
theorem stateRoot_fails_after_read
    : ¬ ∀ (codec : Codec Account) (keccak256 : Bytes → B256)
          (world world' : WorldState × Database) (left right : List RootStep),
        codec.RoundTrips
        → Coherent codec world
        → Coherent codec world'
        → twoMaps codec world = twoMaps codec world'
        → writesOf left = writesOf right
        → EvictsClean codec keccak256 left world
        → EvictsClean codec keccak256 right world'
        → roots codec keccak256 left world = roots codec keccak256 right world' := by
  intro claimed
  have coherent : Coherent Account.wordCodec (.new, oneAccount) :=
    coherent_new (Account.wordCodec_readable oneAccount)
  have same := claimed Account.wordCodec lengthHash (.new, oneAccount) (.new, oneAccount)
    [.getBalance 5, .putAccount 6 (.withBalance 1), .commit byAddress]
    [.putAccount 6 (.withBalance 1), .commit byAddress]
    Account.wordCodec_roundTrips coherent coherent rfl rfl (by simp [EvictsClean])
    (by simp [EvictsClean])
  exact absurd same (by decide +kernel)

/-- Two writes; the cache is emptied between them and the first account is read again. -/
def rereadRun : List RootStep :=
  [ .putAccount 6 (.withBalance 1), .commit byAddress, .clearCache, .getNonce 6
  , .putAccount 7 (.withBalance 2), .commit byAddress ]

/-- The same writes, after the balance of an address without an account is read. -/
def plainRun : List RootStep :=
  [ .getBalance 8, .putAccount 6 (.withBalance 1), .commit byAddress
  , .putAccount 7 (.withBalance 2), .commit byAddress ]

theorem stateRoot_run_reread
    : roots Account.wordCodec lengthHash rereadRun (.new, oneAccount)
      = roots Account.wordCodec lengthHash plainRun (.new, oneAccount) := by
  have coherent : Coherent Account.wordCodec (.new, oneAccount) :=
    coherent_new (Account.wordCodec_readable oneAccount)
  have clean : EvictsClean Account.wordCodec lengthHash rereadRun (.new, oneAccount) := by
    simp only [rereadRun, EvictsClean, reduceCtorEq, or_self, or_false, false_imp_iff,
      true_imp_iff, true_and, and_true]
    rfl
  have clean' : EvictsClean Account.wordCodec lengthHash plainRun (.new, oneAccount) := by
    simp [plainRun, EvictsClean]
  exact (@stateRoot_run _ _ Account.wordCodec_roundTrips _ _ coherent coherent rfl rereadRun
    plainRun rfl clean clean').1 (by decide +kernel)

end VeloChain.WorldState
