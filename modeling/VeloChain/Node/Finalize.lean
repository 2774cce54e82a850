import VeloChain.Node.Chain

/-! What the last part of a block application writes, family by family of the database.
The accounts are committed without a change for their readers, and the serialized world does
not meet the key of any account.
-/

namespace VeloChain

namespace Database

theorem contents_storeReceipts {F : Type} (host : Host F) (blockHash : B256)
    (receipts : List TransactionReceipt) (db : Database) {cf : ColumnFamily}
    (h : cf ≠ .receipts)
    : (Chain.storeReceipts host blockHash receipts db).contents cf = db.contents cf := by
  unfold Chain.storeReceipts
  induction receipts generalizing db with
  | nil => rfl
  | cons receipt rest ih =>
      rw [List.foldl_cons, ih]
      exact contents_putCf_of_ne h _ _

end Database

namespace Chain

variable {F : Type} {host : Host F}

section Finalize

variable (order : BlockOrder F) (block : Block) (execution : Execution)
  (gameWorld : GameWorld F) (chain : Chain F)

/-- Beside the block and its number, finalizing writes only game state and receipts. -/
theorem contents_finalize {cf : ColumnFamily} (notState : cf ≠ .gameState)
    (notReceipts : cf ≠ .receipts)
    : (chain.finalize host order block execution gameWorld).db.contents cf
      = ((chain.db.putBlock host.crypto host.blocks block).putLatestBlockNumber
          block.number).contents cf := by
  unfold finalize
  rw [Database.contents_storeReceipts host _ _ _ notReceipts]
  refine Database.contents_putCf_congr (Database.contents_putBlock_congr ?_ _ _ _) _ _ _
  have committed
      : (WorldState.commit host.account
            (chain.db.putGameState "world".toUTF8.toList
              (gameWorld.serializeState host.ecs order.persist))
            host.crypto.keccak256 order.dirtyAccounts execution.state).2.2.contents cf
        = (chain.db.putGameState "world".toUTF8.toList
            (gameWorld.serializeState host.ecs order.persist)).contents cf :=
    funext (fun key => WorldState.contents_writeAccounts _ _ _ cf key (Or.inl notState))
  exact committed.trans (Database.contents_putCf_of_ne notState _ _)

theorem getLatestBlockNumber_finalize
    : (chain.finalize host order block execution gameWorld).db.getLatestBlockNumber
      = .ok (some block.number) := by
  rw [Database.getLatestBlockNumber_congr
    (contents_finalize order block execution gameWorld chain (by decide) (by decide)),
    Database.getLatestBlockNumber_put]

theorem getBlockHashByNumber_finalize (number : UInt64)
    : (chain.finalize host order block execution gameWorld).db.getBlockHashByNumber number
      = if number = block.number then .ok (some (block.hash host.crypto))
        else chain.db.getBlockHashByNumber number := by
  rw [Database.getBlockHashByNumber_congr
    ((contents_finalize order block execution gameWorld chain (by decide) (by decide)).trans
      (Database.contents_putLatestBlockNumber (by decide) _ _)),
    Database.getBlockHashByNumber_putBlock]

theorem getHeader_finalize (sound : host.blocks.header.RoundTripsAt block.header)
    (hash : B256)
    : (chain.finalize host order block execution gameWorld).db.getHeader host.blocks hash
      = if hash = block.hash host.crypto then .ok (some block.header)
        else chain.db.getHeader host.blocks hash := by
  rw [Database.getHeader_congr
    ((contents_finalize order block execution gameWorld chain (by decide) (by decide)).trans
      (Database.contents_putLatestBlockNumber (by decide) _ _)),
    Database.getHeader_putBlock host.crypto sound]

theorem getBody_finalize (sound : host.blocks.body.RoundTripsAt block.body) (hash : B256)
    : (chain.finalize host order block execution gameWorld).db.getBody host.blocks hash
      = if hash = block.hash host.crypto then .ok (some block.body)
        else chain.db.getBody host.blocks hash := by
  rw [Database.getBody_congr
    ((contents_finalize order block execution gameWorld chain (by decide) (by decide)).trans
      (Database.contents_putLatestBlockNumber (by decide) _ _)),
    Database.getBody_putBlock host.crypto sound]

section Accounts

/-- The key of the game world is no address. -/
theorem addressSlice_ne_world (address : Address)
    : addressSlice address ≠ "world".toUTF8.toList := by
  intro same
  have length := congrArg List.length same
  rw [length_addressSlice] at length
  exact absurd length (by decide +kernel)

/-- The accounts a reader of the node sees. -/
def accounts (host : Host F) (chain : Chain F) : AccountView StateError :=
  chain.state.view host.account chain.db

/-- Every stored account can be read. -/
def AccountsReadable (host : Host F) (chain : Chain F) : Prop :=
  (WorldState.committedView host.account chain.db).Readable

theorem AccountsReadable.accounts {chain : Chain F} (readable : chain.AccountsReadable host)
    : (chain.accounts host).Readable := by
  intro address
  unfold Chain.accounts WorldState.view
  cases chain.state.accountCache.lookup address with
  | some account => exact ⟨_, rfl⟩
  | none =>
      cases chain.state.dirtyAccounts.lookup address with
      | some account => exact ⟨_, rfl⟩
      | none => exact readable address

variable (host)

/-- The database whose accounts are committed: the one with the serialized world. -/
def worldStored (order : BlockOrder F) (gameWorld : GameWorld F) (chain : Chain F) : Database :=
  chain.db.putGameState "world".toUTF8.toList (gameWorld.serializeState host.ecs order.persist)

theorem contents_finalize_gameState
    : (chain.finalize host order block execution gameWorld).db.contents .gameState
      = (execution.state.commit host.account (chain.worldStored host order gameWorld)
          host.crypto.keccak256 order.dirtyAccounts).2.2.contents .gameState := by
  unfold finalize
  rw [Database.contents_storeReceipts host _ _ _ (by decide),
    Database.contents_putLatestBlockNumber (by decide),
    Database.contents_putBlock_of_ne (by decide) (by decide) (by decide) (by decide)]
  rfl

/-- Storing a world leaves the stored accounts as they are. -/
theorem committedView_putWorld (data : Bytes) (db : Database)
    : WorldState.committedView host.account (db.putGameState "world".toUTF8.toList data)
      = WorldState.committedView host.account db := by
  funext address
  simp only [WorldState.committedView, Database.getGameState, Database.putGameState,
    Database.getCf, Database.contents_putCf, addressSlice_ne_world, and_false, if_false]

theorem committedView_worldStored
    : WorldState.committedView host.account (chain.worldStored host order gameWorld)
      = WorldState.committedView host.account chain.db :=
  committedView_putWorld host _ _

/-- Committing accounts leaves the serialized world as it was stored. -/
theorem getGameState_commit
    : (execution.state.commit host.account (chain.worldStored host order gameWorld)
          host.crypto.keccak256 order.dirtyAccounts).2.2.getGameState "world".toUTF8.toList
      = some (gameWorld.serializeState host.ecs order.persist) := by
  have kept := @WorldState.contents_writeAccounts host.account
    (chain.worldStored host order gameWorld) execution.state.dirtyAccounts
    (order.dirtyAccounts.keys execution.state.dirtyAccounts) .gameState "world".toUTF8.toList
    (Or.inr (fun address _ => (addressSlice_ne_world address).symm))
  refine kept.trans ?_
  simp only [worldStored, Database.putGameState, Database.contents_putCf, and_self, if_true]

/-- Genesis leaves the stored accounts as they are. -/
theorem committedView_initGenesis (genesis : BlockHeader) (chain : Chain F)
    : WorldState.committedView host.account (chain.initGenesis host genesis).db
      = WorldState.committedView host.account chain.db :=
  WorldState.committedView_congr host.account
    ((Database.contents_putLatestBlockNumber (by decide) _ _).trans
      (Database.contents_putBlock_of_ne (by decide) (by decide) (by decide) (by decide)))

variable {host}

/-- The accounts of the new head are those the passes ended with. -/
theorem accounts_finalize (sound : host.account.RoundTrips)
    : (chain.finalize host order block execution gameWorld).accounts host
      = execution.state.view host.account chain.db := by
  have committed := WorldState.view_commit (chain.worldStored host order gameWorld) sound
    host.crypto.keccak256 order.dirtyAccounts execution.state
  have stored := contents_finalize_gameState host order block execution gameWorld chain
  have before := WorldState.view_congr host.account execution.state
    (committedView_worldStored host order gameWorld chain)
  rw [← before, ← committed]
  exact WorldState.view_congr host.account _ (WorldState.committedView_congr host.account stored)

/-- Committed accounts can be read back. -/
theorem AccountsReadable.finalize (sound : host.account.RoundTrips) {chain : Chain F}
    (readable : chain.AccountsReadable host)
    : (chain.finalize host order block execution gameWorld).AccountsReadable host := by
  have before : (WorldState.committedView host.account
      (chain.worldStored host order gameWorld)).Readable := by
    rw [committedView_worldStored]
    exact readable
  have stored := contents_finalize_gameState host order block execution gameWorld chain
  unfold AccountsReadable
  rw [WorldState.committedView_congr host.account stored]
  exact WorldState.readable_writeAccounts sound before _ (order.dirtyAccounts.nodup _)

end Accounts

end Finalize

theorem AccountsReadable.initGenesis {chain : Chain F} (readable : chain.AccountsReadable host)
    (genesis : BlockHeader)
    : (chain.initGenesis host genesis).AccountsReadable host := by
  unfold AccountsReadable
  rw [committedView_initGenesis]
  exact readable

/-- Applying a block keeps the stored accounts readable, whether it succeeds or fails. -/
theorem AccountsReadable.applyBlock [F32 F] (sound : host.account.RoundTrips)
    {order : BlockOrder F} {block : Block} {chain : Chain F}
    (readable : chain.AccountsReadable host)
    : (chain.applyBlock host order block).2.AccountsReadable host := by
  rcases call : chain.applyBlock host order block with ⟨e | _, next⟩
  · obtain ⟨evm, state, gameWorld, rfl⟩ := applyBlock_error call
    exact readable
  · obtain ⟨accepted, rfl⟩ := applyBlock_ok_iff.mp call
    exact readable.finalize order block accepted.processed accepted.world sound

end Chain

end VeloChain
