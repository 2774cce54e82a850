import VeloChain.Node.Finalize
import VeloChain.Node.Reference
import VeloChain.Primitives.HeaderEncoding

/-! Initialization of a node from a genesis configuration, and what its header commits to.
The genesis header is made from the game world alone, before the allocations are installed.
-/

namespace VeloChain

variable {F : Type} [F32 F]

/-- A genesis account allocation. -/
structure GenesisAccount where
  balance : U256
  code : Bytes
  storage : FinMap U256 U256
  nonce : UInt64

/-- The genesis configuration, as far as initialization reads it. -/
structure Genesis where
  chainId : UInt64
  seed : UInt64
  period : UInt64
  validators : List Address
  alloc : FinMap Address GenesisAccount

/-- The orders in which initialization walks over hash maps. -/
structure InitOrder (F : Type) where
  entities : EntityOrder F
  alloc : IterationOrder Address GenesisAccount
  dirtyAccounts : IterationOrder Address Account

namespace Genesis

/-- Set up initial account allocations. -/
def allocate (alloc : FinMap Address GenesisAccount) (addresses : List Address)
    (state : WorldState) : WorldState :=
  addresses.foldl
    (fun state address =>
      match alloc.lookup address with
      | some allocated => state.putAccount address (Account.withBalance allocated.balance)
      | none => state)
    state

/-- Initialize a node: the genesis header is the root of the new game world. -/
def cmdInit (host : Host F) (order : InitOrder F) (db : Database) (genesis : Genesis)
    : Chain F :=
  let gameWorld := GameWorld.new host.crypto.keccak256 genesis.seed
  let gameStateRoot :=
    gameWorld.ecs.stateHash host.crypto.keccak256 host.ecs order.entities
  let genesisHeader := BlockHeader.genesis gameStateRoot
  let state := allocate genesis.alloc (order.alloc.keys genesis.alloc) WorldState.new
  let (_, state, db) :=
    state.commit host.account db host.crypto.keccak256 order.dirtyAccounts
  let consensus := PoaConsensus.newReadonly genesis.validators { period := genesis.period }
  (Chain.new db state gameWorld .new consensus genesis.chainId).initGenesis host genesisHeader

/-- The hash of the header that a node starts from. -/
def headHash (crypto : Crypto) (chain : Chain F) : Option B256 :=
  chain.head.map (BlockHeader.hash crypto)

/-- The serialized game world that the seed of a configuration generates. -/
def worldBytes (host : Host F) (order : InitOrder F) (genesis : Genesis) : Bytes :=
  (GameWorld.new (F := F) host.crypto.keccak256 genesis.seed).ecs.serialize host.ecs
    order.entities

/-- An account has the balance, the nonce and the code that were allocated. An account without
code may have no code hash.
-/
structure Holds (crypto : Crypto) (allocated : GenesisAccount) (account : Account) : Prop where
  balance : account.balance = allocated.balance
  nonce : account.nonce = allocated.nonce.toNat
  code
    : account.codeHash = crypto.keccak256 allocated.code
      ∨ (allocated.code = [] ∧ account.codeHash = 0)

/-- Every allocated account is stored as it was allocated. -/
def Installed (host : Host F) (order : InitOrder F) (db : Database) (genesis : Genesis)
    : Prop :=
  ∀ address allocated, genesis.alloc.lookup address = some allocated →
    ∃ account,
      WorldState.committedView host.account (cmdInit host order db genesis).db address
        = .ok (some account)
      ∧ Holds host.crypto allocated account

/-- Nodes that start from different allocations start from different headers, with the accounts
that were allocated.
-/
structure CommitsToAllocations (host : Host F) (order order' : InitOrder F)
    (db db' : Database) (left right : Genesis) : Prop where
  separated
    : left.alloc ≠ right.alloc →
        headHash host.crypto (cmdInit host order db left)
          ≠ headHash host.crypto (cmdInit host order' db' right)
  left : Installed host order db left
  right : Installed host order' db' right

/-- The allocations give balances only. -/
def BalancesOnly (crypto : Crypto) (genesis : Genesis) : Prop :=
  ∀ address allocated, genesis.alloc.lookup address = some allocated →
    allocated.nonce = 0 ∧ (allocated.code = [] ∨ crypto.keccak256 allocated.code = 0)

-----------------------------------------------------------------------------------------
-- The accounts
-----------------------------------------------------------------------------------------

/-- What initialization writes are the balances of the listed addresses, by induction on them. -/
theorem lookup_allocate (alloc : FinMap Address GenesisAccount) (addresses : List Address)
    (state : WorldState) (address : Address)
    : (allocate alloc addresses state).dirtyAccounts.lookup address
      = if address ∈ addresses then
          ((alloc.lookup address).map (fun allocated =>
              Account.withBalance allocated.balance)).or
            (state.dirtyAccounts.lookup address)
        else state.dirtyAccounts.lookup address := by
  induction addresses generalizing state with
  | nil => rfl
  | cons first rest ih =>
      rw [allocate, List.foldl_cons]
      refine (ih _).trans ?_
      by_cases same : address = first
      · subst same
        cases found : alloc.lookup address <;> simp [WorldState.putAccount]
      · have kept
            : (match alloc.lookup first with
                | some allocated =>
                    state.putAccount first (Account.withBalance allocated.balance)
                | none => state).dirtyAccounts.lookup address
              = state.dirtyAccounts.lookup address := by
          cases alloc.lookup first with
          | none => rfl
          | some allocated => exact Finmap.lookup_insert_of_ne _ same
        rw [kept]
        simp only [List.mem_cons, same, false_or]

variable {host : Host F} {order order' : InitOrder F} {db db' : Database}
  {genesis left right : Genesis}

/-- Of an allocation only the balance is stored. -/
theorem committedView_cmdInit (sound : host.account.RoundTrips) {address : Address}
    {allocated : GenesisAccount} (found : genesis.alloc.lookup address = some allocated)
    : WorldState.committedView host.account (cmdInit host order db genesis).db address
      = .ok (some (Account.withBalance allocated.balance)) := by
  have member : address ∈ order.alloc.keys genesis.alloc :=
    (order.alloc.mem_keys _ _).mpr (Finmap.mem_of_lookup_eq_some found)
  have written
      : (allocate genesis.alloc (order.alloc.keys genesis.alloc) .new).dirtyAccounts.lookup
            address
        = some (Account.withBalance allocated.balance) := by
    rw [lookup_allocate, if_pos member, found]
    rfl
  unfold cmdInit
  rw [Chain.committedView_initGenesis]
  refine (WorldState.committedView_commit db sound host.crypto.keccak256 order.dirtyAccounts _
    address).trans ?_
  rw [written]

/-- The accounts are those that were allocated exactly when nothing but balances was. -/
theorem installed_iff (sound : host.account.RoundTrips)
    : Installed host order db genesis ↔ BalancesOnly host.crypto genesis := by
  constructor
  · intro installed address allocated found
    obtain ⟨account, stored, holds⟩ := installed address allocated found
    rw [committedView_cmdInit sound found] at stored
    obtain rfl := Option.some.inj (Except.ok.inj stored)
    have nonce : 0 = allocated.nonce.toNat := holds.nonce
    refine ⟨UInt64.toNat_inj.mp nonce.symm, ?_⟩
    rcases holds.code with hashed | ⟨empty, _⟩
    · exact Or.inr hashed.symm
    · exact Or.inl empty
  · intro balances address allocated found
    obtain ⟨nonce, code⟩ := balances address allocated found
    refine ⟨_, committedView_cmdInit sound found, rfl, by rw [nonce]; rfl, ?_⟩
    rcases code with empty | zero
    · exact Or.inr ⟨empty, rfl⟩
    · exact Or.inl zero.symm

-----------------------------------------------------------------------------------------
-- The header
-----------------------------------------------------------------------------------------

/-- The genesis header. -/
def header (host : Host F) (order : InitOrder F) (genesis : Genesis) : BlockHeader :=
  .genesis (host.crypto.keccak256 (worldBytes host order genesis))

theorem headHash_cmdInit
    : headHash host.crypto (cmdInit host order db genesis)
      = some ((header host order genesis).hash host.crypto) := rfl

/-- Where the hash has no collisions, genesis headers are told apart by the game worlds. -/
theorem headHash_inj
    (headers
      : Set.InjOn host.crypto.keccak256
          {(header host order left).encode, (header host order' right).encode})
    (worlds
      : Set.InjOn host.crypto.keccak256
          {worldBytes host order left, worldBytes host order' right})
    : headHash host.crypto (cmdInit host order db left)
        = headHash host.crypto (cmdInit host order' db' right)
      ↔ worldBytes host order left = worldBytes host order' right := by
  rw [headHash_cmdInit, headHash_cmdInit, Option.some.injEq]
  constructor
  · intro same
    have encoded := headers (Or.inl rfl) (Or.inr rfl) same
    have roots := congrArg BlockHeader.gameStateRoot (BlockHeader.encode_injective encoded)
    exact worlds (Or.inl rfl) (Or.inr rfl) roots
  · intro same
    rw [header, header, same]

/-- Genesis headers commit to the allocations exactly when there is nothing to tell apart, or the
seeds generate different game worlds, and nothing but balances was allocated.
-/
theorem commitsToAllocations_iff (sound : host.account.RoundTrips)
    (headers
      : Set.InjOn host.crypto.keccak256
          {(header host order left).encode, (header host order' right).encode})
    (worlds
      : Set.InjOn host.crypto.keccak256
          {worldBytes host order left, worldBytes host order' right})
    : CommitsToAllocations host order order' db db' left right
      ↔ (left.alloc = right.alloc
          ∨ worldBytes host order left ≠ worldBytes host order' right)
        ∧ BalancesOnly host.crypto left
        ∧ BalancesOnly host.crypto right := by
  have hashes := @headHash_inj F _ host order order' db db' left right headers worlds
  constructor
  · intro commits
    refine ⟨?_, (installed_iff sound).mp commits.left, (installed_iff sound).mp commits.right⟩
    by_cases equal : left.alloc = right.alloc
    · exact Or.inl equal
    · exact Or.inr (fun same => commits.separated equal (hashes.mpr same))
  · rintro ⟨apart, balancesLeft, balancesRight⟩
    refine ⟨?_, (installed_iff sound).mpr balancesLeft, (installed_iff sound).mpr balancesRight⟩
    intro different same
    exact apart.elim different (fun worlds => worlds (hashes.mp same))

-----------------------------------------------------------------------------------------
-- One seed, different allocations
-----------------------------------------------------------------------------------------

/-- A configuration with one allocation. -/
def withAllocation (allocated : GenesisAccount) : Genesis :=
  { chainId := 1, seed := 5, period := 1, validators := []
    alloc := Finmap.singleton 9 allocated }

/-- An account that begins with one transaction. -/
def used : GenesisAccount := { balance := 100, code := [], storage := ∅, nonce := 1 }

def funded : GenesisAccount := { balance := 7, code := [], storage := ∅, nonce := 0 }

def initAscending : InitOrder Milli :=
  { entities := FinMap.ascending id Function.injective_id
    alloc := FinMap.ascending BitVec.toNat Address.toNat_injective
    dirtyAccounts := FinMap.ascending BitVec.toNat Address.toNat_injective }

theorem injOn_pair_self (keccak256 : Bytes → B256) (bytes : Bytes)
    : Set.InjOn keccak256 {bytes, bytes} := by
  rw [Set.pair_eq_singleton]
  exact Set.injOn_singleton keccak256 bytes

theorem commitsToAllocations_iff_of_seed
    : CommitsToAllocations (.reference []) initAscending initAscending .empty .empty
        (withAllocation funded) (withAllocation used)
      ↔ ((withAllocation funded).alloc = (withAllocation used).alloc
          ∨ worldBytes (.reference []) initAscending (withAllocation funded)
            ≠ worldBytes (.reference []) initAscending (withAllocation used))
        ∧ BalancesOnly .disclosing (withAllocation funded)
        ∧ BalancesOnly .disclosing (withAllocation used) :=
  commitsToAllocations_iff Account.wordCodec_roundTrips
    (injOn_pair_self _ (header (.reference []) initAscending (withAllocation funded)).encode)
    (injOn_pair_self _ (worldBytes (.reference []) initAscending (withAllocation funded)))

/-- Two configurations with the same seed share their genesis header, whatever they allocate. -/
theorem commitsToAllocations_fails
    : ¬ ∀ left right : Genesis,
        Set.InjOn Crypto.disclosing.keccak256
            { (header (.reference []) initAscending left).encode
            , (header (.reference []) initAscending right).encode } →
          Set.InjOn Crypto.disclosing.keccak256
              { worldBytes (.reference []) initAscending left
              , worldBytes (.reference []) initAscending right } →
            CommitsToAllocations (.reference []) initAscending initAscending .empty .empty
              left right := by
  intro claimed
  have commits :=
    claimed (withAllocation funded) (withAllocation used) (injOn_pair_self _ _)
      (injOn_pair_self _ _)
  apply commits.separated
  · intro same
    have entries := congrArg (Finmap.lookup 9) same
    rw [withAllocation, withAllocation, Finmap.lookup_singleton_eq,
      Finmap.lookup_singleton_eq] at entries
    exact absurd (congrArg GenesisAccount.nonce (Option.some.inj entries)) (by decide)
  · rfl

end Genesis

end VeloChain
