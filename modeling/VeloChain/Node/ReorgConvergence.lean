import VeloChain.Node.BranchRun
import VeloChain.Node.Lockstep

/-! A node that reorganizes, beside a node that never saw the abandoned branch.
A reorganization moves the head and returns transactions; accounts and game world stay where
the abandoned branch left them. So the two nodes meet only where nothing was abandoned.
-/

namespace VeloChain.Chain

variable {F : Type} [F32 F] {host : Host F}

/-- Two nodes have the same accounts and the same abstract game state. -/
structure Converged (host : Host F) (left right : Chain F) : Prop where
  accounts : left.accounts host = right.accounts host
  gameWorld : GameWorld.SameState left.gameWorld right.gameWorld

/-- Every imported block is one tick, by induction on the blocks. -/
theorem currentTick_run {blocks : List (Block × BlockOrder F)} {chain final : Chain F}
    (applied : Loop.run (importBlock host) blocks chain = (.ok (), final))
    : final.gameWorld.currentTick
      = chain.gameWorld.currentTick + UInt64.ofNat blocks.length := by
  induction blocks generalizing chain with
  | nil =>
      obtain rfl := (Prod.mk.inj applied).2
      exact (UInt64.add_zero _).symm
  | cons entry rest ih =>
      obtain ⟨next, imported, applied⟩ := Loop.run_cons_ok_iff.mp applied
      obtain ⟨accepted, rfl⟩ := applyBlock_ok_iff.mp imported
      have ticked := @GameWorld.currentTick_tick F _ host.crypto host.ecs entry.2.tick
        accepted.parts.gameActions chain.gameWorld
      rw [accepted.ticks] at ticked
      rw [ih applied, show accepted.result.gameWorld = accepted.world from rfl, ticked,
        List.length_cons, Nat.add_comm, UInt64.ofNat_add, UInt64.add_assoc]
      rfl

omit [F32 F] in
/-- Moving the head of one node keeps the ledgers of two nodes the same. -/
theorem SameLedger.rewound {left right start : Chain F} (same : SameLedger host left right)
    (rewound : SameExecution left start)
    : SameLedger host start right := by
  have committed := WorldState.committedView_congr host.account rewound.stored
  refine ⟨?_, rewound.gameWorld.trans same.gameWorld,
    (congrArg EvmExecutor.chainId rewound.evm).trans same.chainId, ⟨?_, same.readable.2⟩, ?_⟩
  · rw [← same.accounts, Chain.accounts, Chain.accounts, rewound.state]
    exact WorldState.view_congr host.account _ committed
  · unfold AccountsReadable
    rw [committed]
    exact same.readable.1
  · rw [rewound.gameWorld]
    exact same.wellformed

/-- A node that reorganizes from one branch to another meets a node that imported only the
other one exactly when the abandoned branch is empty.
-/
theorem reorgConverges_iff (sound : host.account.RoundTrips) {initial : Chain F}
    (readable : initial.AccountsReadable host)
    (world : GameWorld.Reachable host.crypto host.ecs initial.gameWorld) (genesis : BlockHeader)
    {common branchB : List (Block × BlockOrder F × BlockOrder F)}
    {branchA : List (Block × BlockOrder F)} {base tip reorged followed : Chain F}
    {outcome : ReorgOutcome}
    (shared
      : Loop.run (importBlock host) (onLeft common) (initial.initGenesis host genesis)
        = (.ok (), base))
    (saw : Loop.run (importBlock host) branchA base = (.ok (), tip))
    (reorg : tip.executeReorg host base.blockNumber (onLeft branchB) = (.ok outcome, reorged))
    (complete : outcome.blocksApplied = branchB.length)
    (follows
      : Loop.run (importBlock host) (onRight (common ++ branchB))
          (initial.initGenesis host genesis)
        = (.ok (), followed))
    : Converged host reorged followed ↔ branchA = [] := by
  obtain ⟨start, rewound, branch⟩ := executeReorg_complete reorg (by
    rw [complete, onLeft, List.length_map])
  have genesisHead : (initial.initGenesis host genesis).head = some genesis := rfl
  constructor
  · intro converged
    obtain ⟨_, _, baseHead⟩ := run_importBlock_grows genesisHead shared
    have fits := length_lt_of_run baseHead saw
    have ticks := converged.gameWorld.currentTick
    rw [currentTick_run branch, rewound.gameWorld, currentTick_run saw, currentTick_run shared,
      currentTick_run follows] at ticks
    simp only [onRight, onLeft, List.map_append, List.length_append, List.length_map,
      UInt64.ofNat_add, ← UInt64.add_assoc, UInt64.add_left_inj, UInt64.add_eq_left] at ticks
    have none := congrArg UInt64.toNat ticks
    rw [UInt64.toNat_ofNat_of_lt' fits] at none
    exact List.length_eq_zero_iff.mp none
  · intro none
    subst none
    obtain rfl := (Prod.mk.inj saw).2
    rw [onRight, List.map_append, Loop.run_append_ok_iff] at follows
    obtain ⟨base', shared', branch'⟩ := follows
    have started : SameLedger host (initial.initGenesis host genesis)
        (initial.initGenesis host genesis) :=
      .refl (readable.initGenesis genesis) world.wellformed
    have atFork := (started.run sound shared shared').rewound rewound
    have same := atFork.run sound branch branch'
    exact ⟨same.accounts, same.gameWorld ▸ ⟨⟨rfl, rfl, rfl⟩, rfl⟩⟩

section LeftBehind

/-- A block on top of genesis, beside the first block. -/
def otherBlock : Block := Block.following (.genesis 0) []

/-- The branch that is imported first and abandoned. -/
def abandoned : List (Block × BlockOrder Milli) := [(firstBlock, .ascending Milli)]

/-- The branch both nodes end on. -/
def adopted : List (Block × BlockOrder Milli × BlockOrder Milli) :=
  [(otherBlock, .ascending Milli, .ascending Milli)]

/-- A host that can store the blocks of both branches. -/
def forkHost : Host Milli := .reference [Block.new (.genesis 0) [], firstBlock, otherBlock]

/-- A chain with a new world, before genesis. -/
def newChain : Chain Milli := { genesisChain with gameWorld := .new hashFromSlice 5 }

/-- The chain after the abandoned branch. -/
def abandonedTip : Chain Milli :=
  (Loop.run (importBlock forkHost) abandoned (newChain.initGenesis forkHost (.genesis 0))).2

/-- The node that reorganizes. -/
def reorganized : Chain Milli := (abandonedTip.executeReorg forkHost 0 (onLeft adopted)).2

/-- The node that imports only the adopted branch. -/
def follower : Chain Milli :=
  (Loop.run (importBlock forkHost) (onRight adopted)
    (newChain.initGenesis forkHost (.genesis 0))).2

theorem abandonedTip_ok
    : Loop.run (importBlock forkHost) abandoned (newChain.initGenesis forkHost (.genesis 0))
      = (.ok (), abandonedTip) :=
  Loop.eq_of_ok (by decide +kernel)

theorem reorganized_ok
    : abandonedTip.executeReorg forkHost 0 (onLeft adopted)
      = (.ok { commonAncestor := 0, blocksReverted := 1, blocksApplied := 1, newHead := 1 },
          reorganized) :=
  Loop.eq_of_ok (by decide +kernel)

theorem follower_ok
    : Loop.run (importBlock forkHost) (onRight adopted)
        (newChain.initGenesis forkHost (.genesis 0))
      = (.ok (), follower) :=
  Loop.eq_of_ok (by decide +kernel)

theorem reorgConverges_iff_abandoned
    : Converged forkHost reorganized follower ↔ abandoned = [] :=
  @reorgConverges_iff Milli _ forkHost Account.wordCodec_roundTrips newChain
    (Account.wordCodec_readable _) (.new 5) (.genesis 0) [] adopted abandoned _ _ _ _ _ rfl
    abandonedTip_ok reorganized_ok rfl follower_ok

/-- The tick of the abandoned block stays in the game world. -/
theorem reorgConverges_fails_after_branch
    : ¬ ∀ (host : Host Milli) (initial base tip reorged followed : Chain Milli)
          (genesis : BlockHeader) (outcome : ReorgOutcome)
          (common branchB : List (Block × BlockOrder Milli × BlockOrder Milli))
          (branchA : List (Block × BlockOrder Milli)),
        host.account.RoundTrips
        → initial.AccountsReadable host
        → GameWorld.Reachable host.crypto host.ecs initial.gameWorld
        → Loop.run (importBlock host) (onLeft common) (initial.initGenesis host genesis)
            = (.ok (), base)
        → Loop.run (importBlock host) branchA base = (.ok (), tip)
        → tip.executeReorg host base.blockNumber (onLeft branchB) = (.ok outcome, reorged)
        → outcome.blocksApplied = branchB.length
        → Loop.run (importBlock host) (onRight (common ++ branchB))
              (initial.initGenesis host genesis)
            = (.ok (), followed)
        → Converged host reorged followed := by
  intro claimed
  have converged := claimed forkHost newChain _ abandonedTip reorganized follower (.genesis 0) _ []
    adopted abandoned Account.wordCodec_roundTrips (Account.wordCodec_readable _) (.new 5) rfl
    abandonedTip_ok reorganized_ok rfl follower_ok
  exact absurd converged.gameWorld.currentTick (by decide +kernel)

end LeftBehind

end VeloChain.Chain
