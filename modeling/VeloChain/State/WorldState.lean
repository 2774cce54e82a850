import VeloChain.Lib.HashMapOrder
import VeloChain.State.AccountView
import VeloChain.Storage.Database

/-! The world state: cached and uncommitted accounts over the database.
`WorldState.view` is what a reader sees at every address. Each operation of the world state
refines an operation on views, so that later proofs do not unfold the caches.
-/

namespace VeloChain

inductive StateError
  | serialization (message : String)
  | insufficientBalance («has» needs : String)
  | invalidTransition (message : String)
  deriving DecidableEq

instance : ToString StateError where
  toString
    | .serialization message => s!"Serialization error: {message}"
    | .insufficientBalance held needs => s!"Insufficient balance: has {held}, needs {needs}"
    | .invalidTransition message => s!"Invalid state transition: {message}"

/-- Accounts read or written since the caches were last cleared. -/
@[ext]
structure WorldState where
  accountCache : FinMap Address Account
  dirtyAccounts : FinMap Address Account
  stateRoot : B256

namespace WorldState

/-- Create a new world state. -/
def new : WorldState := { accountCache := ∅, dirtyAccounts := ∅, stateRoot := 0 }

variable (codec : Codec Account) (db : Database)

-----------------------------------------------------------------------------------------
-- Account operations
-----------------------------------------------------------------------------------------

/-- Get an account by address; an account loaded from the database enters the cache. -/
def getAccount (address : Address) (state : WorldState)
    : Except StateError (Option Account) × WorldState :=
  match state.accountCache.lookup address with
  | some account => (.ok (some account), state)
  | none =>
      match state.dirtyAccounts.lookup address with
      | some account => (.ok (some account), state)
      | none =>
          match db.getGameState (addressSlice address) with
          | none => (.ok none, state)
          | some data =>
              match codec.decode data with
              | .error e => (.error (.serialization e), state)
              | .ok account =>
                  (.ok (some account),
                    { state with accountCache := state.accountCache.insert address account })

/-- Get an account, creating a default one if it doesn't exist. -/
def getOrCreateAccount (address : Address) (state : WorldState)
    : Except StateError Account × WorldState :=
  match getAccount codec db address state with
  | (.error e, state) => (.error e, state)
  | (.ok found, state) => (.ok (found.getD .default), state)

/-- Update an account. -/
def putAccount (address : Address) (account : Account) (state : WorldState) : WorldState :=
  { state with
    dirtyAccounts := state.dirtyAccounts.insert address account
    accountCache := state.accountCache.insert address account }

/-- Get account balance. -/
def getBalance (address : Address) (state : WorldState) : Except StateError U256 × WorldState :=
  match getAccount codec db address state with
  | (.error e, state) => (.error e, state)
  | (.ok found, state) => (.ok ((found.map Account.balance).getD 0), state)

/-- Get account nonce. -/
def getNonce (address : Address) (state : WorldState) : Except StateError Nat × WorldState :=
  match getAccount codec db address state with
  | (.error e, state) => (.error e, state)
  | (.ok found, state) => (.ok ((found.map Account.nonce).getD 0), state)

/-- Increment account nonce. -/
def incrementNonce (address : Address) (state : WorldState)
    : Except StateError Unit × WorldState :=
  match getOrCreateAccount codec db address state with
  | (.error e, state) => (.error e, state)
  | (.ok account, state) =>
      (.ok (), state.putAccount address { account with nonce := account.nonce + 1 })

/-- Add balance to an account. -/
def addBalance (address : Address) (amount : U256) (state : WorldState)
    : Except StateError Unit × WorldState :=
  match getOrCreateAccount codec db address state with
  | (.error e, state) => (.error e, state)
  | (.ok account, state) =>
      if account.balance.toNat + amount.toNat < 2 ^ 256 then
        (.ok (), state.putAccount address { account with balance := account.balance + amount })
      else (.error (.invalidTransition "Balance overflow"), state)

/-- Subtract balance from an account. -/
def subBalance (address : Address) (amount : U256) (state : WorldState)
    : Except StateError Unit × WorldState :=
  match getOrCreateAccount codec db address state with
  | (.error e, state) => (.error e, state)
  | (.ok account, state) =>
      if account.balance < amount then
        (.error (.insufficientBalance (toString account.balance.toNat) (toString amount.toNat)),
          state)
      else
        (.ok (), state.putAccount address { account with balance := account.balance - amount })

/-- Addresses in numerical order. -/
def sortedAddresses (accounts : FinMap Address Account) : List Address :=
  FinMap.sortedKeys BitVec.toNat Address.toNat_injective accounts

/-- The hash of all cached accounts in address order. -/
def computeStateRoot (keccak256 : Bytes → B256) (state : WorldState) : B256 :=
  -- the cache holds what was read since it was emptied, beside what was written
  keccak256 ((sortedAddresses state.accountCache).flatMap (fun address =>
    addressSlice address
    ++ ((state.accountCache.lookup address).map codec.encode).getD []))

/-- Write uncommitted accounts to the database, in the order they are drained. -/
def writeAccounts (dirty : FinMap Address Account) : List Address → Database → Database
  | [], db => db
  | address :: rest, db =>
      writeAccounts dirty rest
        (match dirty.lookup address with
          | some account => db.putGameState (addressSlice address) (codec.encode account)
          | none => db)

/-- Commit all uncommitted accounts to the database. -/
def commit (keccak256 : Bytes → B256) (order : IterationOrder Address Account)
    (state : WorldState) : B256 × WorldState × Database :=
  let db := writeAccounts codec state.dirtyAccounts (order.keys state.dirtyAccounts) db
  let root := computeStateRoot codec keccak256 state
  (root, { state with dirtyAccounts := ∅, stateRoot := root }, db)

/-- Clear the in-memory caches (e.g., after a revert). -/
def clearCache (state : WorldState) : WorldState :=
  { state with accountCache := ∅, dirtyAccounts := ∅ }

-----------------------------------------------------------------------------------------
-- What readers of the world state see
-----------------------------------------------------------------------------------------

section View

/-- The account stored in the database, decoded. -/
def committedView : AccountView StateError := fun address =>
  match db.getGameState (addressSlice address) with
  | none => .ok none
  | some data =>
      match codec.decode data with
      | .error e => .error (.serialization e)
      | .ok account => .ok (some account)

/-- The accounts a reader sees: cached, else uncommitted, else stored. -/
def view (state : WorldState) : AccountView StateError := fun address =>
  match state.accountCache.lookup address with
  | some account => .ok (some account)
  | none =>
      match state.dirtyAccounts.lookup address with
      | some account => .ok (some account)
      | none => committedView codec db address

theorem committedView_congr {left right : Database}
    (h : left.contents .gameState = right.contents .gameState)
    : committedView codec left = committedView codec right := by
  funext address
  simp only [committedView, Database.getGameState_congr h]

theorem view_congr {left right : Database} (state : WorldState)
    (h : committedView codec left = committedView codec right)
    : state.view codec left = state.view codec right := by
  funext address
  simp only [view, h]

/-- A read returns the visible account. -/
theorem getAccount_result (address : Address) (state : WorldState)
    : (getAccount codec db address state).1 = state.view codec db address := by
  unfold getAccount view committedView
  cases state.accountCache.lookup address with
  | some account => rfl
  | none =>
      cases state.dirtyAccounts.lookup address with
      | some account => rfl
      | none =>
          cases db.getGameState (addressSlice address) with
          | none => rfl
          | some data => cases decoded : codec.decode data <;> simp [decoded]

/-- A read changes nothing a reader sees, since it caches the stored account. -/
@[simp]
theorem view_getAccount (address : Address) (state : WorldState)
    : (getAccount codec db address state).2.view codec db = state.view codec db := by
  funext other
  unfold getAccount
  cases cached : state.accountCache.lookup address with
  | some account => rfl
  | none =>
      cases dirty : state.dirtyAccounts.lookup address with
      | some account => rfl
      | none =>
          cases stored : db.getGameState (addressSlice address) with
          | none => rfl
          | some data =>
              cases decoded : codec.decode data with
              | error e => simp [decoded]
              | ok account =>
                  by_cases same : other = address
                  · subst same
                    simp [view, committedView, cached, dirty, stored, decoded]
                  · simp [view, decoded, same]

/-- A read leaves the world state as it is, or caches the visible account. -/
theorem getAccount_cases (address : Address) (state : WorldState)
    : (getAccount codec db address state).2 = state
      ∨ ∃ account,
          state.view codec db address = .ok (some account)
          ∧ (getAccount codec db address state).2
            = { state with accountCache := state.accountCache.insert address account } := by
  have result := getAccount_result codec db address state
  rw [← result]
  unfold getAccount
  split
  next => exact Or.inl rfl
  next =>
    split
    next => exact Or.inl rfl
    next =>
      split
      next => exact Or.inl rfl
      next =>
        split
        next => exact Or.inl rfl
        next account _ => exact Or.inr ⟨account, rfl, rfl⟩

/-- A written account is visible at its address, and nowhere else. -/
theorem view_putAccount (address : Address) (written : Account) (state : WorldState)
    : (state.putAccount address written).view codec db
      = Function.update (state.view codec db) address (.ok (some written)) := by
  funext other
  by_cases same : other = address
  · subst same
    simp [view, putAccount]
  · simp [view, putAccount, same]

theorem getOrCreateAccount_result (address : Address) (state : WorldState)
    : (getOrCreateAccount codec db address state).1
      = (state.view codec db).accountOrDefault address := by
  have result := getAccount_result codec db address state
  unfold getOrCreateAccount AccountView.accountOrDefault
  rw [← result]
  rcases getAccount codec db address state with ⟨_ | _, next⟩ <;> rfl

@[simp]
theorem view_getOrCreateAccount (address : Address) (state : WorldState)
    : (getOrCreateAccount codec db address state).2.view codec db = state.view codec db := by
  have same := view_getAccount codec db address state
  unfold getOrCreateAccount
  rcases read : getAccount codec db address state with ⟨_ | _, next⟩ <;>
    simpa only [read] using same

theorem getNonce_result (address : Address) (state : WorldState)
    : (getNonce codec db address state).1 = (state.view codec db).nonce address := by
  have result := getAccount_result codec db address state
  unfold getNonce AccountView.nonce AccountView.accountOrDefault
  rw [← result]
  rcases getAccount codec db address state with ⟨_ | found, next⟩
  · rfl
  · cases found <;> rfl

@[simp]
theorem view_getNonce (address : Address) (state : WorldState)
    : (getNonce codec db address state).2.view codec db = state.view codec db := by
  have same := view_getAccount codec db address state
  unfold getNonce
  rcases read : getAccount codec db address state with ⟨_ | _, next⟩ <;>
    simpa only [read] using same

/-- A read of an account with a conditional write back is an update of the view. -/
theorem view_modify {address : Address} {state next : WorldState}
    {account : Except StateError Account}
    (read : getOrCreateAccount codec db address state = (account, next))
    (f : Account → Option Account)
    : (match account with
        | .error _ => next
        | .ok account =>
            match f account with
            | none => next
            | some written => next.putAccount address written).view codec db
      = (state.view codec db).modify address f := by
  have result := getOrCreateAccount_result codec db address state
  have same := view_getOrCreateAccount codec db address state
  simp only [read] at result same
  cases account with
  | error e => rw [AccountView.modify_of_error result.symm, same]
  | ok account =>
      cases wanted : f account with
      | none => simp only [AccountView.modify_of_none result.symm wanted, wanted, same]
      | some written =>
          rw [AccountView.modify_of_some result.symm wanted, ← same]
          simp only [wanted, view_putAccount]

theorem view_incrementNonce (address : Address) (state : WorldState)
    : (incrementNonce codec db address state).2.view codec db
      = (state.view codec db).modify address Account.bumpNonce := by
  rcases read : getOrCreateAccount codec db address state with ⟨account, next⟩
  rw [← view_modify codec db read, incrementNonce, read]
  cases account <;> rfl

theorem view_subBalance (address : Address) (amount : U256) (state : WorldState)
    : (subBalance codec db address amount state).2.view codec db
      = (state.view codec db).modify address (Account.pay amount) := by
  rcases read : getOrCreateAccount codec db address state with ⟨account, next⟩
  rw [← view_modify codec db read, subBalance, read]
  cases account with
  | error e => rfl
  | ok account => by_cases poor : account.balance < amount <;> simp [Account.pay, poor]

end View

-----------------------------------------------------------------------------------------
-- Commits
-----------------------------------------------------------------------------------------

section Commit

variable {codec}

/-- Writing accounts back stores the listed ones under their addresses and nothing else. -/
theorem contents_writeAccounts (dirty : FinMap Address Account) (addresses : List Address)
    (cf : ColumnFamily) (key : Bytes)
    (other : cf ≠ .gameState ∨ ∀ address ∈ addresses, key ≠ addressSlice address)
    : (writeAccounts codec dirty addresses db).contents cf key = db.contents cf key := by
  induction addresses generalizing db with
  | nil => rfl
  | cons address rest ih =>
      rw [writeAccounts, ih _ (other.imp_right (fun h a member => h a (by simp [member])))]
      split
      next account _ =>
        rw [Database.putGameState, Database.contents_putCf, if_neg]
        rintro ⟨sameFamily, sameKey⟩
        exact other.elim (fun h => h sameFamily) (fun h => h address (by simp) sameKey)
      next => rfl

theorem getGameState_writeAccounts (dirty : FinMap Address Account)
    {addresses : List Address} (nodup : addresses.Nodup) (address : Address)
    : (writeAccounts codec dirty addresses db).getGameState (addressSlice address)
      = if address ∈ addresses then
          ((dirty.lookup address).map codec.encode).or
            (db.getGameState (addressSlice address))
        else db.getGameState (addressSlice address) := by
  induction addresses generalizing db with
  | nil => rfl
  | cons head rest ih =>
      obtain ⟨fresh, nodup⟩ := List.nodup_cons.mp nodup
      rw [writeAccounts, ih _ nodup]
      by_cases same : address = head
      · subst same
        simp only [fresh, if_false, List.mem_cons, true_or, if_true]
        cases dirty.lookup address <;>
          simp [Database.getGameState, Database.putGameState, Database.getCf,
            Database.contents_putCf]
      · have kept
            : (match dirty.lookup head with
                | some account => db.putGameState (addressSlice head) (codec.encode account)
                | none => db).getGameState (addressSlice address)
              = db.getGameState (addressSlice address) := by
          cases dirty.lookup head <;>
            simp [Database.getGameState, Database.putGameState, Database.getCf,
              Database.contents_putCf, addressSlice_inj, same]
        simp only [kept, List.mem_cons, same, false_or]

/-- A stored account is visible at its address, and nowhere else. -/
theorem committedView_putAccount {db : Database} {account : Account}
    (sound : codec.RoundTripsAt account) (address : Address)
    : committedView codec (db.putGameState (addressSlice address) (codec.encode account))
      = Function.update (committedView codec db) address (.ok (some account)) := by
  funext other
  by_cases same : other = address
  · subst same
    simp [committedView, Database.getGameState, Database.putGameState, Database.getCf,
      Database.contents_putCf, show codec.decode _ = _ from sound]
  · simp [committedView, Database.getGameState, Database.putGameState, Database.getCf,
      Database.contents_putCf, addressSlice_inj, same]

/-- Accounts that are written back can be read. -/
theorem readable_writeAccounts {db : Database} (sound : codec.RoundTrips)
    (readable : (committedView codec db).Readable) (dirty : FinMap Address Account)
    {addresses : List Address} (nodup : addresses.Nodup)
    : (committedView codec (writeAccounts codec dirty addresses db)).Readable := by
  intro address
  have before := readable address
  have stored := @getGameState_writeAccounts codec db dirty _ nodup address
  unfold committedView at before ⊢
  rw [stored]
  by_cases member : address ∈ addresses
  · cases dirty.lookup address with
    | none => simpa only [member, if_true, Option.map_none, Option.none_or] using before
    | some account =>
        refine ⟨some account, ?_⟩
        simp only [member, if_true, Option.map_some, Option.some_or,
          show codec.decode _ = _ from sound account]
  · simpa only [member, if_false] using before

/-- After a commit the database holds the uncommitted accounts over those it held before. -/
theorem committedView_commit (sound : codec.RoundTrips) (keccak256 : Bytes → B256)
    (order : IterationOrder Address Account) (state : WorldState) (address : Address)
    : committedView codec (commit codec db keccak256 order state).2.2 address
      = match state.dirtyAccounts.lookup address with
        | some account => .ok (some account)
        | none => committedView codec db address := by
  have stored := @getGameState_writeAccounts codec db state.dirtyAccounts _
    (order.nodup state.dirtyAccounts) address
  unfold commit committedView
  simp only [stored, order.mem_keys]
  cases dirty : state.dirtyAccounts.lookup address with
  | none =>
      have missing : address ∉ state.dirtyAccounts := Finmap.lookup_eq_none.mp dirty
      simp only [missing, if_false]
  | some account =>
      have present : address ∈ state.dirtyAccounts := Finmap.mem_of_lookup_eq_some dirty
      simp only [present, if_true, Option.map_some, Option.some_or,
        show codec.decode _ = _ from sound account]

/-- Committing moves accounts to the database without changing what a reader sees. -/
theorem view_commit (sound : codec.RoundTrips) (keccak256 : Bytes → B256)
    (order : IterationOrder Address Account) (state : WorldState)
    : (commit codec db keccak256 order state).2.1.view codec
        (commit codec db keccak256 order state).2.2
      = state.view codec db := by
  funext address
  have stored := committedView_commit db sound keccak256 order state address
  unfold view
  rw [stored]
  unfold commit
  cases state.accountCache.lookup address with
  | some account => rfl
  | none => simp only [Finmap.lookup_empty]

end Commit

end WorldState

/-- A format for accounts: three words, then the nonce. -/
def Account.wordCodec : Codec Account :=
  { encode := fun account =>
      Bytes.bigEndian 32 account.balance.toNat
      ++ (hashSlice account.codeHash
        ++ (hashSlice account.storageRoot ++ Bytes.minimalBigEndian account.nonce))
    decode := fun bytes =>
      .ok
        { nonce := Bytes.toNat (bytes.drop 96)
          balance := BitVec.ofNat 256 (Bytes.toNat (bytes.take 32))
          codeHash := hashFromSlice ((bytes.drop 32).take 32)
          storageRoot := hashFromSlice ((bytes.drop 64).take 32) } }

theorem Account.wordCodec_roundTrips : Account.wordCodec.RoundTrips := by
  intro account
  have afterFirst (rest : Bytes)
      : (Bytes.bigEndian 32 account.balance.toNat ++ rest).drop 32 = rest :=
    List.drop_left' (Bytes.length_bigEndian _ _)
  have afterSecond (rest : Bytes) : (hashSlice account.codeHash ++ rest).drop 32 = rest :=
    List.drop_left' (length_hashSlice _)
  have afterThird (rest : Bytes) : (hashSlice account.storageRoot ++ rest).drop 32 = rest :=
    List.drop_left' (length_hashSlice _)
  have small : account.balance.toNat < 256 ^ 32 := by simpa using account.balance.isLt
  rw [Codec.RoundTripsAt, wordCodec]
  simp only [show 96 = 32 + (32 + 32) from rfl, show 64 = 32 + 32 from rfl, ← List.drop_drop,
    afterFirst, afterSecond, afterThird, Bytes.toNat_minimalBigEndian,
    List.take_left' (Bytes.length_bigEndian 32 account.balance.toNat),
    List.take_left' (length_hashSlice account.codeHash),
    List.take_left' (length_hashSlice account.storageRoot), hashFromSlice_hashSlice,
    Bytes.toNat_bigEndian, Nat.mod_eq_of_lt small, BitVec.ofNat_toNat, BitVec.setWidth_eq]

/-- This format reads every byte string. -/
theorem Account.wordCodec_readable (db : Database)
    : (WorldState.committedView Account.wordCodec db).Readable := by
  intro address
  unfold WorldState.committedView
  cases db.getGameState (addressSlice address) with
  | none => exact ⟨none, rfl⟩
  | some data => exact ⟨_, rfl⟩

end VeloChain
