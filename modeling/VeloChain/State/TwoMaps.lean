import VeloChain.Lib.Simulation
import VeloChain.State.WorldState

/-! What the world state is for: a committed map of accounts and the writes since.
The read cache is invisible. It only ever holds what a read would find anyway.
-/

namespace VeloChain

/-- The committed accounts, and the accounts written since the last commit. -/
@[ext]
structure TwoMaps where
  committed : Address → Option Account
  working : Address → Option Account

/-- An operation on the world state. A commit brings the order in which it drains the writes. -/
inductive StateOp
  | getAccount (address : Address)
  | putAccount (address : Address) (account : Account)
  | incrementNonce (address : Address)
  | addBalance (address : Address) (amount : U256)
  | subBalance (address : Address) (amount : U256)
  | commit (order : IterationOrder Address Account)
  | clearCache

/-- What an operation returns: the account it read, or whether it succeeded. -/
inductive StateReply
  | account (found : Except StateError (Option Account))
  | done (result : Except StateError Unit)

-----------------------------------------------------------------------------------------
-- The abstract state and its operations
-----------------------------------------------------------------------------------------

namespace TwoMaps

/-- The latest write, or else the committed account. -/
def read (maps : TwoMaps) (address : Address) : Option Account :=
  (maps.working address).or (maps.committed address)

def write (address : Address) (account : Account) (maps : TwoMaps) : TwoMaps :=
  { maps with working := Function.update maps.working address (some account) }

/-- Write what `f` makes of the account, or fail and change nothing. -/
def change (address : Address) (f : Account → Except StateError Account) (maps : TwoMaps)
    : Except StateError Unit × TwoMaps :=
  match f ((maps.read address).getD .default) with
  | .error e => (.error e, maps)
  | .ok account => (.ok (), maps.write address account)

/-- What every reader sees becomes committed. -/
def publish (maps : TwoMaps) : TwoMaps :=
  { committed := maps.read, working := fun _ => none }

/-- Forget the writes since the last commit. -/
def revert (maps : TwoMaps) : TwoMaps := { maps with working := fun _ => none }

/-- The account after its nonce is counted up. -/
def bumped (account : Account) : Except StateError Account :=
  .ok { account with nonce := account.nonce + 1 }

/-- The account after it gets `amount`, if the balance does not overflow. -/
def credited (amount : U256) (account : Account) : Except StateError Account :=
  if account.balance.toNat + amount.toNat < 2 ^ 256 then
    .ok { account with balance := account.balance + amount }
  else .error (.invalidTransition "Balance overflow")

/-- The account after it pays `amount`, if it can. -/
def debited (amount : U256) (account : Account) : Except StateError Account :=
  if account.balance < amount then
    .error (.insufficientBalance (toString account.balance.toNat) (toString amount.toNat))
  else .ok { account with balance := account.balance - amount }

/-- An operation on the two maps. -/
def perform (op : StateOp) (maps : TwoMaps) : StateReply × TwoMaps :=
  match op with
  | .getAccount address => (.account (.ok (maps.read address)), maps)
  | .putAccount address account => (.done (.ok ()), maps.write address account)
  | .incrementNonce address =>
      let (result, maps) := maps.change address bumped
      (.done result, maps)
  | .addBalance address amount =>
      let (result, maps) := maps.change address (credited amount)
      (.done result, maps)
  | .subBalance address amount =>
      let (result, maps) := maps.change address (debited amount)
      (.done result, maps)
  | .commit _ => (.done (.ok ()), maps.publish)
  | .clearCache => (.done (.ok ()), maps.revert)

/-- A change that fails changes nothing. -/
theorem change_of_error {maps : TwoMaps} {address : Address}
    {f : Account → Except StateError Account} {e : StateError}
    (failed : (maps.change address f).1 = .error e)
    : (maps.change address f).2 = maps := by
  unfold change at failed ⊢
  split at failed
  next => rfl
  next => simp at failed

end TwoMaps

namespace WorldState

-----------------------------------------------------------------------------------------
-- The operations of the world state
-----------------------------------------------------------------------------------------

section Operations

variable (codec : Codec Account) (keccak256 : Bytes → B256)

/-- An operation of the world state over its database. A commit returns a root beside its
success, and a cleared cache returns nothing.
-/
def perform (op : StateOp) (world : WorldState × Database)
    : StateReply × WorldState × Database :=
  let (state, db) := world
  match op with
  | .getAccount address =>
      let (found, state) := state.getAccount codec db address
      (.account found, state, db)
  | .putAccount address account => (.done (.ok ()), state.putAccount address account, db)
  | .incrementNonce address =>
      let (result, state) := state.incrementNonce codec db address
      (.done result, state, db)
  | .addBalance address amount =>
      let (result, state) := state.addBalance codec db address amount
      (.done result, state, db)
  | .subBalance address amount =>
      let (result, state) := state.subBalance codec db address amount
      (.done result, state, db)
  | .commit order =>
      let (_, state, db) := state.commit codec db keccak256 order
      (.done (.ok ()), state, db)
  | .clearCache => (.done (.ok ()), state.clearCache, db)

end Operations

-----------------------------------------------------------------------------------------
-- The world state refines the two maps
-----------------------------------------------------------------------------------------

section Maps

variable (codec : Codec Account)

/-- The two maps a world state over its database stands for. -/
def twoMaps (world : WorldState × Database) : TwoMaps :=
  { committed := fun address => ((committedView codec world.2 address).toOption).join
    working := world.1.dirtyAccounts.lookup }

/-- Stored accounts can be read, and the cache holds what a read finds. -/
structure Coherent (world : WorldState × Database) : Prop where
  readable : (committedView codec world.2).Readable
  cached
    : ∀ address account, world.1.accountCache.lookup address = some account →
        (twoMaps codec world).read address = some account

variable {codec}

/-- A coherent world state shows what the two maps say. -/
theorem Coherent.view {world : WorldState × Database} (coherent : Coherent codec world)
    (address : Address)
    : world.1.view codec world.2 address = .ok ((twoMaps codec world).read address) := by
  unfold WorldState.view
  cases cached : world.1.accountCache.lookup address with
  | some account => rw [coherent.cached address account cached]
  | none =>
      obtain ⟨found, stored⟩ := coherent.readable address
      cases dirty : world.1.dirtyAccounts.lookup address <;>
        simp [TwoMaps.read, twoMaps, dirty, stored, Except.toOption]

/-- A read returns what the two maps say and leaves them as they are. -/
theorem Coherent.getAccount {state : WorldState} {db : Database}
    (coherent : Coherent codec (state, db)) (address : Address)
    : ∃ next,
        state.getAccount codec db address
            = (.ok ((twoMaps codec (state, db)).read address), next)
        ∧ Coherent codec (next, db)
        ∧ twoMaps codec (next, db) = twoMaps codec (state, db) := by
  have result := getAccount_result codec db address state
  have seen := coherent.view address
  rw [seen] at result
  refine ⟨(state.getAccount codec db address).2, Prod.ext result rfl, ?_⟩
  rcases getAccount_cases codec db address state with same | ⟨account, visible, next⟩
  · rw [same]
    exact ⟨coherent, rfl⟩
  · rw [next]
    refine ⟨⟨coherent.readable, ?_⟩, rfl⟩
    intro other found cached
    by_cases same : other = address
    · subst same
      obtain rfl := Option.some.inj ((Finmap.lookup_insert _).symm.trans cached)
      exact Except.ok.inj (seen.symm.trans visible)
    · rw [Finmap.lookup_insert_of_ne _ same] at cached
      exact coherent.cached other found cached

/-- A write enters the working map. -/
theorem Coherent.putAccount {state : WorldState} {db : Database}
    (coherent : Coherent codec (state, db)) (address : Address) (account : Account)
    : Coherent codec (state.putAccount address account, db)
      ∧ twoMaps codec (state.putAccount address account, db)
        = (twoMaps codec (state, db)).write address account := by
  have written
      : twoMaps codec (state.putAccount address account, db)
        = (twoMaps codec (state, db)).write address account := by
    refine TwoMaps.ext rfl ?_
    funext other
    by_cases same : other = address
    · subst same
      simp [twoMaps, WorldState.putAccount, TwoMaps.write]
    · simp [twoMaps, WorldState.putAccount, TwoMaps.write, same]
  refine ⟨⟨coherent.readable, ?_⟩, written⟩
  intro other found cached
  rw [written]
  by_cases same : other = address
  · subst same
    obtain rfl := Option.some.inj ((Finmap.lookup_insert _).symm.trans cached)
    simp [TwoMaps.read, TwoMaps.write]
  · rw [WorldState.putAccount, Finmap.lookup_insert_of_ne _ same] at cached
    have before := coherent.cached other found cached
    simpa [TwoMaps.read, TwoMaps.write, same] using before

/-- Reading an account and writing back what `f` makes of it. -/
def changeAccount (codec : Codec Account) (db : Database) (address : Address)
    (f : Account → Except StateError Account) (state : WorldState)
    : Except StateError Unit × WorldState :=
  match getOrCreateAccount codec db address state with
  | (.error e, state) => (.error e, state)
  | (.ok account, state) =>
      match f account with
      | .error e => (.error e, state)
      | .ok written => (.ok (), state.putAccount address written)

/-- Counting up a nonce is a change that never fails. -/
theorem incrementNonce_eq (db : Database) (address : Address) (state : WorldState)
    : state.incrementNonce codec db address
      = state.changeAccount codec db address TwoMaps.bumped := by
  unfold incrementNonce WorldState.changeAccount
  rcases getOrCreateAccount codec db address state with ⟨_ | account, next⟩ <;> rfl

/-- Adding to a balance is a change that fails on overflow. -/
theorem addBalance_eq (db : Database) (address : Address) (amount : U256) (state : WorldState)
    : state.addBalance codec db address amount
      = state.changeAccount codec db address (TwoMaps.credited amount) := by
  unfold addBalance WorldState.changeAccount TwoMaps.credited
  rcases getOrCreateAccount codec db address state with ⟨_ | account, next⟩
  · rfl
  · by_cases fits : account.balance.toNat + amount.toNat < 2 ^ 256 <;>
      simp only [fits, if_true, if_false]

/-- Taking from a balance is a change that fails on a small balance. -/
theorem subBalance_eq (db : Database) (address : Address) (amount : U256) (state : WorldState)
    : state.subBalance codec db address amount
      = state.changeAccount codec db address (TwoMaps.debited amount) := by
  unfold subBalance WorldState.changeAccount TwoMaps.debited
  rcases getOrCreateAccount codec db address state with ⟨_ | account, next⟩
  · rfl
  · by_cases poor : account.balance < amount <;> simp only [poor, if_true, if_false]

/-- A change of an account refines the change of the two maps. -/
theorem Coherent.changeAccount {state : WorldState} {db : Database}
    (coherent : Coherent codec (state, db)) (address : Address)
    (f : Account → Except StateError Account)
    : (twoMaps codec (state, db)).change address f
        = ((state.changeAccount codec db address f).1,
            twoMaps codec ((state.changeAccount codec db address f).2, db))
      ∧ Coherent codec ((state.changeAccount codec db address f).2, db) := by
  obtain ⟨next, read, kept, same⟩ := coherent.getAccount address
  simp only [WorldState.changeAccount, getOrCreateAccount, read, TwoMaps.change]
  cases f (((twoMaps codec (state, db)).read address).getD .default) with
  | error e => exact ⟨by rw [same], kept⟩
  | ok written =>
      obtain ⟨coherent, maps⟩ := kept.putAccount address written
      exact ⟨by rw [maps, same], coherent⟩

/-- A commit publishes what every reader sees, in whatever order it drains the writes. -/
theorem Coherent.commit {state : WorldState} {db : Database} (sound : codec.RoundTrips)
    (coherent : Coherent codec (state, db)) (keccak256 : Bytes → B256)
    (order : IterationOrder Address Account)
    : Coherent codec (state.commit codec db keccak256 order).2
      ∧ twoMaps codec (state.commit codec db keccak256 order).2
        = (twoMaps codec (state, db)).publish := by
  have stored := @committedView_commit codec db sound keccak256 order state
  have published
      : twoMaps codec (state.commit codec db keccak256 order).2
        = (twoMaps codec (state, db)).publish := by
    apply TwoMaps.ext
    · funext address
      simp only [twoMaps, stored address, TwoMaps.publish, TwoMaps.read]
      cases state.dirtyAccounts.lookup address <;> rfl
    · funext address
      simp [twoMaps, WorldState.commit, TwoMaps.publish]
  refine ⟨⟨?_, ?_⟩, published⟩
  · intro address
    rw [stored address]
    cases state.dirtyAccounts.lookup address with
    | some account => exact ⟨_, rfl⟩
    | none => exact coherent.readable address
  · intro address account cached
    rw [published]
    exact coherent.cached address account cached

/-- Clearing the caches forgets the writes since the last commit. -/
theorem Coherent.clearCache {state : WorldState} {db : Database}
    (coherent : Coherent codec (state, db))
    : Coherent codec (state.clearCache, db)
      ∧ twoMaps codec (state.clearCache, db) = (twoMaps codec (state, db)).revert := by
  refine ⟨⟨coherent.readable, ?_⟩, ?_⟩
  · intro address account cached
    simp [WorldState.clearCache] at cached
  · apply TwoMaps.ext rfl
    funext address
    simp [twoMaps, WorldState.clearCache]

section Runs

variable (keccak256 : Bytes → B256)

/-- Every operation refines its counterpart on the two maps. -/
theorem Coherent.perform (sound : codec.RoundTrips) (op : StateOp)
    (world : WorldState × Database) (coherent : Coherent codec world)
    : (twoMaps codec world).perform op
        = ((WorldState.perform codec keccak256 op world).1,
            twoMaps codec (WorldState.perform codec keccak256 op world).2)
      ∧ Coherent codec (WorldState.perform codec keccak256 op world).2 := by
  obtain ⟨state, db⟩ := world
  cases op with
  | getAccount address =>
      obtain ⟨next, read, kept, same⟩ := coherent.getAccount address
      simp only [TwoMaps.perform, WorldState.perform, read, same, true_and]
      exact kept
  | putAccount address account =>
      obtain ⟨kept, maps⟩ := coherent.putAccount address account
      exact ⟨by simp only [TwoMaps.perform, WorldState.perform, maps], kept⟩
  | incrementNonce address =>
      obtain ⟨changed, kept⟩ := coherent.changeAccount address TwoMaps.bumped
      simp only [TwoMaps.perform, WorldState.perform, incrementNonce_eq, changed, true_and]
      exact kept
  | addBalance address amount =>
      obtain ⟨changed, kept⟩ := coherent.changeAccount address (TwoMaps.credited amount)
      simp only [TwoMaps.perform, WorldState.perform, addBalance_eq, changed, true_and]
      exact kept
  | subBalance address amount =>
      obtain ⟨changed, kept⟩ := coherent.changeAccount address (TwoMaps.debited amount)
      simp only [TwoMaps.perform, WorldState.perform, subBalance_eq, changed, true_and]
      exact kept
  | commit order =>
      obtain ⟨kept, maps⟩ := coherent.commit sound keccak256 order
      exact ⟨by simp only [TwoMaps.perform, WorldState.perform, maps], kept⟩
  | clearCache =>
      obtain ⟨kept, maps⟩ := coherent.clearCache
      exact ⟨by simp only [TwoMaps.perform, WorldState.perform, maps], kept⟩

/-- A fresh world state over a database with readable accounts is coherent. -/
theorem coherent_new {db : Database} (readable : (committedView codec db).Readable)
    : Coherent codec (.new, db) := by
  refine ⟨readable, ?_⟩
  intro address account cached
  simp [WorldState.new] at cached

/-- Over every sequence of operations the world state replies like the two maps and stays
their image, and a balance operation that fails changes neither map.
-/
theorem twoMaps_run (sound : codec.RoundTrips) {db : Database}
    (readable : (committedView codec db).Readable) (ops : List StateOp)
    : let final := Transcript.run (perform codec keccak256) ops (.new, db)
      Transcript.run TwoMaps.perform ops (twoMaps codec (.new, db))
          = (final.1, twoMaps codec final.2)
        ∧ ∀ address amount,
            ∀ op ∈ [StateOp.addBalance address amount, .subBalance address amount], ∀ e,
              (perform codec keccak256 op final.2).1 = .done (.error e) →
              twoMaps codec (perform codec keccak256 op final.2).2 = twoMaps codec final.2 := by
  intro final
  obtain ⟨followed, coherent⟩ := Transcript.run_abstract (twoMaps codec) (Coherent codec)
    (fun op world held => Coherent.perform keccak256 sound op world held)
    (coherent_new readable)
  refine ⟨followed, ?_⟩
  intro address amount op listed e failed
  have step := (Coherent.perform keccak256 sound op final.2 coherent).1
  have maps := congrArg Prod.snd step
  rw [failed] at step
  have reply := congrArg Prod.fst step
  rw [← show _ = twoMaps codec (perform codec keccak256 op final.2).2 from maps]
  rcases List.mem_pair.mp listed with rfl | rfl
  · exact TwoMaps.change_of_error (StateReply.done.inj reply)
  · exact TwoMaps.change_of_error (StateReply.done.inj reply)

end Runs

end Maps

/-- A payment that fails, one that is committed, and one that is forgotten. -/
def threePayments : List StateOp :=
  [ .putAccount 5 (.withBalance 10)
  , .subBalance 5 20
  , .commit (FinMap.ascending BitVec.toNat Address.toNat_injective)
  , .subBalance 5 4
  , .clearCache
  , .getAccount 5 ]

theorem twoMaps_run_threePayments
    : let final := Transcript.run (perform Account.wordCodec hashFromSlice) threePayments
        (.new, .empty)
      Transcript.run TwoMaps.perform threePayments (twoMaps Account.wordCodec (.new, .empty))
          = (final.1, twoMaps Account.wordCodec final.2)
        ∧ ∀ address amount,
            ∀ op ∈ [StateOp.addBalance address amount, .subBalance address amount], ∀ e,
              (perform Account.wordCodec hashFromSlice op final.2).1 = .done (.error e) →
              twoMaps Account.wordCodec (perform Account.wordCodec hashFromSlice op final.2).2
                = twoMaps Account.wordCodec final.2 :=
  twoMaps_run hashFromSlice Account.wordCodec_roundTrips (Account.wordCodec_readable .empty)
    threePayments

end WorldState

end VeloChain
