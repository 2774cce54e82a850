import VeloChain.Node.ApplyCalls
import VeloChain.Node.Atomicity

/-! Concurrent block applications in one order.
Where a call begins to write only while its parent is still the head and no other call is
writing, the blocks that were applied form one chain, and accounts and game world are those of
applying them one after another.
-/

namespace VeloChain

open Interleaving

variable {F : Type} [F32 F] {host : Host F}

namespace Chain

/-- Two chains with the same ledger, head and consensus engine. -/
structure Agrees (host : Host F) (left right : Chain F) : Prop
    extends SameLedger host left right where
  head : left.head = right.head
  consensus : left.consensus = right.consensus

/-- Nothing stands against the block past its header, or the first transaction that is not
stale, with the EVM transactions before the game actions, cannot be attributed to a readable
sender.
-/
def WritesAllOrNothing (host : Host F) (block : Block) (chain : Chain F) : Prop :=
  StopsStale host.crypto (chain.accounts host) (block.evmTxs ++ block.gameTxs)
  ∨ (∀ tx ∈ block.body.transactions, SenderReadable host.crypto (chain.accounts host) tx)
    ∧ chain.AdmitsActions host.crypto block

/-- A block that one of two agreeing chains accepts the other one accepts as well. -/
theorem Agrees.applyBlock (sound : host.account.RoundTrips) {left right next : Chain F}
    (agrees : Agrees host left right) {block : Block} {order : BlockOrder F}
    (applied : left.applyBlock host order block = (.ok (), next))
    : ∃ next',
        right.applyBlock host order block = (.ok (), next') ∧ Agrees host next next' := by
  obtain ⟨⟨parent, head, verified⟩, readable, admits⟩ := applyBlock_accepts_iff.mp ⟨next, applied⟩
  obtain ⟨next', applied'⟩ := (@applyBlock_accepts_iff F _ host order block right).mpr
    ⟨⟨parent, agrees.head ▸ head, agrees.consensus ▸ verified⟩, agrees.accounts ▸ readable, by
      unfold AdmitsActions at admits ⊢
      rwa [← agrees.gameWorld]⟩
  refine ⟨next', applied', agrees.toSameLedger.applyBlock sound applied applied', ?_, ?_⟩
  · rw [(applyBlock_grows head applied).2, (applyBlock_grows (agrees.head ▸ head) applied').2]
  · have config := (@applyBlock_config F _ host order block left).1
    have config' := (@applyBlock_config F _ host order block right).1
    rw [applied] at config
    rw [applied'] at config'
    exact config.trans (agrees.consensus.trans config'.symm)

/-- A block that would be accepted gets through its transactions. -/
theorem executeTxs_of_accepted {order : BlockOrder F} {block : Block} {chain : Chain F}
    (accepted : Accepted host order block chain)
    : chain.executeTxs host order block accepted.parts
      = (.ok accepted.processed.receipts,
          { chain with evm := accepted.processed.evm, state := accepted.processed.state }) := by
  simp only [executeTxs, accepted.executes, accepted.processes]

omit [F32 F] in
/-- Where the first transaction that is not stale is refused, the accounts stay as they are. -/
theorem executeTxs_of_stopsStale {order : BlockOrder F} {block : Block} {chain : Chain F}
    {parts : Partition} (partitioned : Partition.ofBlock host.crypto block = (.ok (), parts))
    (stops : StopsStale host.crypto (chain.accounts host) (block.evmTxs ++ block.gameTxs))
    : ∃ e evm state,
        chain.executeTxs host order block parts = (.error e, { chain with evm, state })
        ∧ ({ chain with evm, state } : Chain F).accounts host = chain.accounts host
        ∧ evm.chainId = chain.evm.chainId := by
  obtain ⟨evmTxs, _⟩ := Partition.ofBlock_parts partitioned
  have started := (Execution.start_refines host chain.db block.evmTxs parts.totalGasUsed
    chain.evm chain.state).2
  have executed := (Execution.runEvm_refines host chain.db block
    (fun _ member => block.isGameAction_of_mem_evmTxs member) started).2.2
  rcases stopsStale_append.mp stops with evmStops | ⟨stale, gameStops⟩
  · obtain ⟨e, x, executes, same⟩ := Execution.runEvm_of_stopsStale block parts.totalGasUsed
      chain.evm chain.state evmStops
    rw [executes] at executed
    exact ⟨e, x.evm, x.state, by simp only [executeTxs, evmTxs, executes], same, executed⟩
  · obtain ⟨executing, executes, same⟩ := Execution.runEvm_of_stale block parts.totalGasUsed
      chain.evm chain.state stale
    rw [executes] at executed
    have kept := same order.evmAccounts
    obtain ⟨e, x, processes, sameAfter⟩ := Execution.runGame_of_stopsStale block
      (executing.flush host chain.db order.evmAccounts) (by rw [kept]; exact gameStops)
    have processed := @chainId_runGame F host chain.db block
      (executing.flush host chain.db order.evmAccounts)
    rw [processes] at processed
    exact ⟨e, x.evm, x.state, by simp only [executeTxs, evmTxs, executes, processes],
      sameAfter.trans kept, processed.trans executed⟩

omit [F32 F] in
/-- Other caches of the same accounts make no difference. -/
theorem Agrees.withCaches {left right : Chain F} (agrees : Agrees host left right)
    {evm : EvmExecutor} {state : WorldState}
    (accounts : ({ left with evm, state } : Chain F).accounts host = left.accounts host)
    (chainId : evm.chainId = left.evm.chainId)
    : Agrees host { left with evm, state } right :=
  ⟨⟨accounts.trans agrees.accounts, agrees.gameWorld, chainId.trans agrees.chainId,
    agrees.readable, agrees.wellformed⟩, agrees.head, agrees.consensus⟩

end Chain

-----------------------------------------------------------------------------------------
-- Configurations that are as if the calls had come one after another
-----------------------------------------------------------------------------------------

open Chain

variable {ι : Type*}

/-- What the chain is while the call that applies the block to `base` stands at a stage. -/
def Chain.Accepted.At {base : Chain F} {order : BlockOrder F} {block : Block}
    (accepted : Accepted host order block base) : ApplyStage → Chain F → Prop
  | .gameTick parts receipts, chain =>
      parts = accepted.parts
      ∧ receipts = accepted.processed.receipts
      ∧ chain = { base with evm := accepted.processed.evm, state := accepted.processed.state }
  | .commit receipts, chain =>
      receipts = accepted.processed.receipts
      ∧ chain
        = { base with
            evm := accepted.processed.evm
            state := accepted.processed.state
            gameWorld := accepted.world }
  | .setHead, chain => chain = { accepted.result with head := base.head }
  | _, _ => False

/-- The call has begun to write and has changed `base` to the given chain so far. -/
def Partway (host : Host F) (base : Chain F) (call : ApplyCall F) (chain : Chain F) : Prop :=
  ∃ accepted : Accepted host call.order call.block base, accepted.At call.stage chain

/-- No call is writing. -/
def Quiet (config : Config ι (ApplyCall F) (Chain F)) : Prop :=
  ∀ task, ¬ (config.tasks task).stage.Writing

/-- A call begins to write only while its parent is still the head, no other call is writing,
and it will change either everything or nothing.
-/
def Undisputed (host : Host F) (config : Config ι (ApplyCall F) (Chain F)) (task : ι) : Prop :=
  ∀ parent parts, (config.tasks task).stage = .evmPhase parent parts →
    config.shared.head = some parent
    ∧ Quiet config
    ∧ config.shared.WritesAllOrNothing host (config.tasks task).block

/-- The calls in `done` have applied their blocks, in this order. Applied one after another,
they lead to `serial`. Before the call that is writing, if there is one, the shared chain was
`base`.
-/
structure Serial (host : Host F) (start : Chain F) (config : Config ι (ApplyCall F) (Chain F))
    (done : List ι) (base serial : Chain F) : Prop where
  nodup : done.Nodup
  succeeded : ∀ task, task ∈ done ↔ (config.tasks task).stage.Succeeded
  applied
    : Loop.run (importBlock host) (done.map (fun task => (config.tasks task).entry)) start
      = (.ok (), serial)
  agrees : Agrees host base serial
  consensus : base.consensus = start.consensus
  checked
    : ∀ task parent parts, (config.tasks task).stage = .evmPhase parent parts
        → start.consensus.verifyBlock host.crypto (config.tasks task).block parent = .ok ()
          ∧ Partition.ofBlock host.crypto (config.tasks task).block = (.ok (), parts)
  shared
    : Quiet config ∧ config.shared = base
      ∨ ∃ task,
          Partway host base (config.tasks task) config.shared
          ∧ ∀ other, (config.tasks other).stage.Writing → other = task

theorem Partway.writing {base chain : Chain F} {call : ApplyCall F}
    (partway : Partway host base call chain)
    : call.stage.Writing := by
  obtain ⟨accepted, isAt⟩ := partway
  cases stage : call.stage <;> rw [stage] at isAt <;>
    simp only [Accepted.At, ApplyStage.Writing] at isAt ⊢

namespace Serial

variable [DecidableEq ι] {start base serial : Chain F}
  {config : Config ι (ApplyCall F) (Chain F)} {task : ι} {done : List ι}

/-- One task gets to another stage of its call. -/
def proceed (config : Config ι (ApplyCall F) (Chain F)) (task : ι) (stage : ApplyStage)
    (chain : Chain F) : Config ι (ApplyCall F) (Chain F) :=
  { tasks := Function.update config.tasks task { config.tasks task with stage }
    shared := chain }

omit [F32 F] in
theorem proceed_self (stage : ApplyStage) (chain : Chain F)
    : (proceed config task stage chain).tasks task = { config.tasks task with stage } :=
  Function.update_self task _ config.tasks

omit [F32 F] in
theorem proceed_of_ne (stage : ApplyStage) (chain : Chain F) {other : ι} (ne : other ≠ task)
    : (proceed config task stage chain).tasks other = config.tasks other :=
  Function.update_of_ne ne _ config.tasks

omit [F32 F] in
theorem proceed_same : proceed config task (config.tasks task).stage config.shared = config := by
  rw [proceed, show ({ config.tasks task with stage := (config.tasks task).stage }
    : ApplyCall F) = config.tasks task from rfl, Function.update_eq_self]

theorem step_of_nextStage {stage : ApplyStage} {chain : Chain F}
    (next
      : ApplyCall.nextStage host (config.tasks task).block (config.tasks task).order
          config.shared (config.tasks task).stage
        = (stage, chain))
    : config.step (ApplyCall.act host) task = proceed config task stage chain := by
  apply Config.step_eq
  rw [ApplyCall.act, next]

omit [F32 F] in
/-- A step changes neither the block of a call nor its order. -/
theorem map_entry_proceed (stage : ApplyStage) (chain : Chain F) (list : List ι)
    : list.map (fun other => ((proceed config task stage chain).tasks other).entry)
      = list.map (fun other => (config.tasks other).entry) := by
  apply List.map_congr_left
  intro other _
  by_cases same : other = task
  · rw [same, proceed_self]
    rfl
  · rw [proceed_of_ne stage chain same]

/-- What was checked for a call is known after a step that does not lead to the next check. -/
theorem checked_proceed (serially : Serial host start config done base serial)
    {stage : ApplyStage} (chain : Chain F)
    (checked
      : ∀ parent parts, stage = .evmPhase parent parts
          → start.consensus.verifyBlock host.crypto (config.tasks task).block parent = .ok ()
            ∧ Partition.ofBlock host.crypto (config.tasks task).block = (.ok (), parts))
    : ∀ other parent parts,
        ((proceed config task stage chain).tasks other).stage = .evmPhase parent parts
        → start.consensus.verifyBlock host.crypto
              ((proceed config task stage chain).tasks other).block parent
            = .ok ()
          ∧ Partition.ofBlock host.crypto
              ((proceed config task stage chain).tasks other).block
            = (.ok (), parts) := by
  intro other parent parts isStage
  by_cases same : other = task
  · subst same
    rw [proceed_self] at isStage ⊢
    exact checked parent parts isStage
  · rw [proceed_of_ne stage chain same] at isStage ⊢
    exact serially.checked other parent parts isStage

/-- Which calls have succeeded does not change by a step of one that has not. -/
theorem succeeded_proceed (serially : Serial host start config done base serial)
    {stage : ApplyStage} (chain : Chain F)
    (unfinished : ¬ (config.tasks task).stage.Succeeded ∧ ¬ stage.Succeeded)
    : ∀ other, other ∈ done
        ↔ ((proceed config task stage chain).tasks other).stage.Succeeded := by
  intro other
  rw [serially.succeeded]
  by_cases same : other = task
  · rw [same, proceed_self]
    exact iff_of_false unfinished.1 unfinished.2
  · rw [proceed_of_ne stage chain same]

omit [F32 F] in
theorem quiet_proceed (quiet : Quiet config) {stage : ApplyStage} (after : ¬ stage.Writing)
    (chain : Chain F)
    : Quiet (proceed config task stage chain) := by
  intro other
  by_cases same : other = task
  · rwa [same, proceed_self]
  · rw [proceed_of_ne stage chain same]
    exact quiet other

/-- A call that does not write takes a step. -/
theorem move (serially : Serial host start config done base serial)
    (before : ¬ (config.tasks task).stage.Writing) {stage : ApplyStage}
    (unfinished : ¬ (config.tasks task).stage.Succeeded ∧ ¬ stage.Succeeded)
    (after : ¬ stage.Writing)
    (checked
      : ∀ parent parts, stage = .evmPhase parent parts
          → start.consensus.verifyBlock host.crypto (config.tasks task).block parent = .ok ()
            ∧ Partition.ofBlock host.crypto (config.tasks task).block = (.ok (), parts))
    : Serial host start (proceed config task stage config.shared) done base serial := by
  refine ⟨serially.nodup, serially.succeeded_proceed _ unfinished, ?_, serially.agrees,
    serially.consensus, serially.checked_proceed _ checked, ?_⟩
  · rw [map_entry_proceed]
    exact serially.applied
  · rcases serially.shared with ⟨quiet, same⟩ | ⟨writer, partway, only⟩
    · exact Or.inl ⟨quiet_proceed quiet after _, same⟩
    · have other : writer ≠ task := by
        rintro rfl
        exact before partway.writing
      refine Or.inr ⟨writer, ?_, ?_⟩
      · rw [proceed_of_ne stage _ other]
        exact partway
      · intro third writing
        by_cases same : third = task
        · rw [same, proceed_self] at writing
          exact absurd writing after
        · rw [proceed_of_ne stage _ same] at writing
          exact only third writing

/-- A call fails while no other one is writing, and changes at most caches. -/
theorem fail (serially : Serial host start config done base serial) (quiet : Quiet config)
    (unfinished : ¬ (config.tasks task).stage.Succeeded) (e : NodeError) {chain : Chain F}
    (agrees : Agrees host chain serial) (consensus : chain.consensus = start.consensus)
    : Serial host start (proceed config task (.returned (.error e)) chain) done chain serial := by
  refine ⟨serially.nodup, serially.succeeded_proceed _ ⟨unfinished, by
    simp [ApplyStage.Succeeded]⟩, ?_, agrees, consensus, serially.checked_proceed _ (by simp),
    Or.inl ⟨quiet_proceed quiet id _, rfl⟩⟩
  rw [map_entry_proceed]
  exact serially.applied

/-- The writing call gets further, or a call begins to write. -/
theorem advance (serially : Serial host start config done base serial)
    (unfinished : ¬ (config.tasks task).stage.Succeeded)
    (only : ∀ other, (config.tasks other).stage.Writing → other = task)
    {stage : ApplyStage} {chain : Chain F}
    (partway : Partway host base { config.tasks task with stage } chain)
    : Serial host start (proceed config task stage chain) done base serial := by
  have writing : stage.Writing := partway.writing
  refine ⟨serially.nodup,
    serially.succeeded_proceed _ ⟨unfinished, writing.not_succeeded⟩, ?_,
    serially.agrees, serially.consensus, serially.checked_proceed _ ?_, ?_⟩
  · rw [map_entry_proceed]
    exact serially.applied
  · rintro parent parts rfl
    exact absurd writing id
  · refine Or.inr ⟨task, by rwa [proceed_self], ?_⟩
    intro other writes
    by_cases same : other = task
    · exact same
    · rw [proceed_of_ne stage _ same] at writes
      exact only other writes

/-- The writing call sets the head and returns: its block is the last one now. -/
theorem finish (serially : Serial host start config done base serial)
    (sound : host.account.RoundTrips) (isStage : (config.tasks task).stage = .setHead)
    (only : ∀ other, (config.tasks other).stage.Writing → other = task)
    (accepted : Accepted host (config.tasks task).order (config.tasks task).block base)
    : ∃ serial',
        Serial host start (proceed config task (.returned (.ok ())) accepted.result)
          (done ++ [task]) accepted.result serial' := by
  have applies := applyBlock_ok_iff.mpr ⟨accepted, rfl⟩
  obtain ⟨serial', applied, agrees⟩ := serially.agrees.applyBlock sound applies
  have config' := (@applyBlock_config F _ host (config.tasks task).order
    (config.tasks task).block base).1
  rw [applies] at config'
  have unfinished : task ∉ done := by
    rw [serially.succeeded, ApplyStage.Succeeded, isStage]
    simp
  refine ⟨serial', ?_, ?_, ?_, agrees, config'.trans serially.consensus,
    serially.checked_proceed _ (by simp), Or.inl ⟨?_, rfl⟩⟩
  · exact List.nodup_append.mpr ⟨serially.nodup, List.nodup_singleton task, by
      rintro a isDone b isTask rfl
      rw [List.mem_singleton.mp isTask] at isDone
      exact unfinished isDone⟩
  · intro other
    by_cases same : other = task
    · rw [same, proceed_self]
      exact iff_of_true (by simp) rfl
    · rw [proceed_of_ne _ _ same, ← serially.succeeded, List.mem_append, List.mem_singleton]
      exact ⟨fun isDone => isDone.resolve_right same, Or.inl⟩
  · rw [map_entry_proceed, List.map_append]
    apply Loop.run_append_ok_iff.mpr
    refine ⟨serial, serially.applied, ?_⟩
    rw [List.map_singleton]
    exact Loop.run_cons_ok_iff.mpr ⟨serial', applied, rfl⟩
  · intro other writing
    by_cases same : other = task
    · rw [same, proceed_self] at writing
      exact writing
    · rw [proceed_of_ne _ _ same] at writing
      exact same (only other writing)

omit [DecidableEq ι] in
/-- Between the steps the consensus engine is the same. -/
theorem shared_consensus (serially : Serial host start config done base serial)
    : config.shared.consensus = start.consensus := by
  rcases serially.shared with ⟨_, same⟩ | ⟨writer, ⟨accepted, isAt⟩, _⟩
  · rw [same]
    exact serially.consensus
  · cases stage : (config.tasks writer).stage <;> rw [stage] at isAt <;>
      simp only [Accepted.At] at isAt
    case gameTick =>
      rw [isAt.2.2]
      exact serially.consensus
    case commit =>
      rw [isAt.2]
      exact serially.consensus
    case setHead =>
      rw [isAt]
      exact serially.consensus

omit [DecidableEq ι] in
/-- The call that is writing. -/
theorem partway_of_writing (serially : Serial host start config done base serial)
    (writing : (config.tasks task).stage.Writing)
    : Partway host base (config.tasks task) config.shared
      ∧ ∀ other, (config.tasks other).stage.Writing → other = task := by
  rcases serially.shared with ⟨quiet, _⟩ | ⟨writer, partway, only⟩
  · exact absurd writing (quiet task)
  · obtain rfl := only task writing
    exact ⟨partway, only⟩

/-- A call begins to write. -/
theorem begin (serially : Serial host start config done base serial)
    {parent : BlockHeader} {parts : Partition}
    (isStage : (config.tasks task).stage = .evmPhase parent parts)
    (undisputed : Undisputed host config task)
    : ∃ base', Serial host start (config.step (ApplyCall.act host) task) done base' serial := by
  obtain ⟨head, quiet, safe⟩ := undisputed parent parts isStage
  obtain ⟨verified, partitioned⟩ := serially.checked task parent parts isStage
  have unfinished : ¬ (config.tasks task).stage.Succeeded := by
    rw [isStage]
    simp [ApplyStage.Succeeded]
  have same : config.shared = base := by
    rcases serially.shared with ⟨_, same⟩ | ⟨writer, partway, _⟩
    · exact same
    · exact absurd partway.writing (quiet writer)
  rw [same] at head safe
  rcases safe with stops | ⟨readable, admits⟩
  · obtain ⟨e, evm, state, executes, accounts, chainId⟩ :=
      @executeTxs_of_stopsStale F host (config.tasks task).order (config.tasks task).block base
        parts partitioned stops
    have next
        : ApplyCall.nextStage host (config.tasks task).block (config.tasks task).order
            config.shared (config.tasks task).stage
          = (.returned (.error e), { base with evm, state }) := by
      rw [isStage, same]
      simp only [ApplyCall.nextStage, executes]
    refine ⟨{ base with evm, state }, ?_⟩
    rw [step_of_nextStage next]
    exact serially.fail quiet unfinished e (serially.agrees.withCaches accounts chainId)
      serially.consensus
  · rw [← serially.consensus] at verified
    obtain ⟨next, applied⟩ := (@applyBlock_accepts_iff F _ host (config.tasks task).order
      (config.tasks task).block base).mpr ⟨⟨parent, head, verified⟩, readable, admits⟩
    obtain ⟨accepted, _⟩ := applyBlock_ok_iff.mp applied
    obtain rfl : parts = accepted.parts :=
      (Prod.mk.inj (partitioned.symm.trans accepted.partitioned)).2
    have next
        : ApplyCall.nextStage host (config.tasks task).block (config.tasks task).order
            config.shared (config.tasks task).stage
          = (.gameTick accepted.parts accepted.processed.receipts,
              { base with evm := accepted.processed.evm, state := accepted.processed.state }) := by
      rw [isStage, same]
      simp only [ApplyCall.nextStage, executeTxs_of_accepted accepted]
    refine ⟨base, ?_⟩
    rw [step_of_nextStage next]
    exact serially.advance unfinished (fun other writing => absurd writing (quiet other))
      ⟨accepted, rfl, rfl, rfl⟩

/-- The writing call takes a step. -/
theorem goOn (serially : Serial host start config done base serial)
    (sound : host.account.RoundTrips) (writing : (config.tasks task).stage.Writing)
    : ∃ done' base' serial',
        Serial host start (config.step (ApplyCall.act host) task) done' base' serial' := by
  obtain ⟨⟨accepted, isAt⟩, only⟩ := serially.partway_of_writing writing
  have unfinished := writing.not_succeeded
  cases stage : (config.tasks task).stage <;> rw [stage] at isAt writing <;>
    simp only [Accepted.At] at isAt
  case gameTick parts receipts =>
    obtain ⟨rfl, rfl, same⟩ := isAt
    have next
        : ApplyCall.nextStage host (config.tasks task).block (config.tasks task).order
            config.shared (config.tasks task).stage
          = (.commit accepted.processed.receipts,
              { config.shared with gameWorld := accepted.world }) := by
      rw [stage, same]
      simp only [ApplyCall.nextStage, accepted.ticks]
    rw [step_of_nextStage next]
    exact ⟨done, base, serial, serially.advance unfinished only ⟨accepted, rfl, by rw [same]⟩⟩
  case commit receipts =>
    obtain ⟨rfl, same⟩ := isAt
    have next
        : ApplyCall.nextStage host (config.tasks task).block (config.tasks task).order
            config.shared (config.tasks task).stage
          = (.setHead, { accepted.result with head := base.head }) := by
      rw [stage, same]
      rfl
    rw [step_of_nextStage next]
    exact ⟨done, base, serial, serially.advance unfinished only ⟨accepted, rfl⟩⟩
  case setHead =>
    have next
        : ApplyCall.nextStage host (config.tasks task).block (config.tasks task).order
            config.shared (config.tasks task).stage
          = (.returned (.ok ()), accepted.result) := by
      rw [stage, isAt]
      rfl
    rw [step_of_nextStage next]
    obtain ⟨serial', finished⟩ := serially.finish sound stage only accepted
    exact ⟨_, _, serial', finished⟩

/-- A call that has not begun to write takes a step before that. -/
theorem look (serially : Serial host start config done base serial)
    (before : (∃ parent, (config.tasks task).stage = .verify parent)
      ∨ (config.tasks task).stage = .readHead)
    : Serial host start (config.step (ApplyCall.act host) task) done base serial := by
  have idle
      : ¬ (config.tasks task).stage.Writing ∧ ¬ (config.tasks task).stage.Succeeded := by
    rcases before with ⟨parent, isStage⟩ | isStage <;> rw [isStage] <;>
      simp [ApplyStage.Writing, ApplyStage.Succeeded]
  obtain ⟨stage, next, after, checked⟩
      : ∃ stage,
          ApplyCall.nextStage host (config.tasks task).block (config.tasks task).order
              config.shared (config.tasks task).stage
            = (stage, config.shared)
          ∧ (¬ stage.Writing ∧ ¬ stage.Succeeded)
          ∧ ∀ parent parts, stage = .evmPhase parent parts
              → start.consensus.verifyBlock host.crypto (config.tasks task).block parent
                  = .ok ()
                ∧ Partition.ofBlock host.crypto (config.tasks task).block
                  = (.ok (), parts) := by
    rcases before with ⟨parent, isStage⟩ | isStage
    · rw [isStage, ApplyCall.nextStage]
      rw [serially.shared_consensus]
      cases verified
          : start.consensus.verifyBlock host.crypto (config.tasks task).block parent with
      | error e => exact ⟨_, rfl, by simp [ApplyStage.Writing, ApplyStage.Succeeded], by simp⟩
      | ok =>
          rcases partitioned : Partition.ofBlock host.crypto (config.tasks task).block
            with ⟨e | _, parts⟩
          · exact ⟨_, rfl, by simp [ApplyStage.Writing, ApplyStage.Succeeded], by simp⟩
          · refine ⟨.evmPhase parent parts, rfl,
              by simp [ApplyStage.Writing, ApplyStage.Succeeded], ?_⟩
            rintro _ _ ⟨⟩
            exact ⟨verified, rfl⟩
    · rw [isStage, ApplyCall.nextStage]
      cases config.shared.head with
      | none => exact ⟨_, rfl, by simp [ApplyStage.Writing, ApplyStage.Succeeded], by simp⟩
      | some parent =>
          exact ⟨.verify parent, rfl, by simp [ApplyStage.Writing, ApplyStage.Succeeded],
            by simp⟩
  rw [step_of_nextStage next]
  exact serially.move idle.1 ⟨idle.2, after.2⟩ after.1 checked

/-- Every step that may be taken keeps the calls in one order, whatever its stage. -/
theorem step (serially : Serial host start config done base serial)
    (sound : host.account.RoundTrips) (undisputed : Undisputed host config task)
    : ∃ done' base' serial',
        Serial host start (config.step (ApplyCall.act host) task) done' base' serial' := by
  cases stage : (config.tasks task).stage with
  | readHead => exact ⟨done, base, serial, serially.look (Or.inr stage)⟩
  | verify parent => exact ⟨done, base, serial, serially.look (Or.inl ⟨parent, stage⟩)⟩
  | evmPhase parent parts =>
      obtain ⟨base', after⟩ := serially.begin stage undisputed
      exact ⟨done, base', serial, after⟩
  | gameTick parts receipts => exact serially.goOn sound (by rw [stage]; trivial)
  | commit receipts => exact serially.goOn sound (by rw [stage]; trivial)
  | setHead => exact serially.goOn sound (by rw [stage]; trivial)
  | returned result =>
      have next
          : ApplyCall.nextStage host (config.tasks task).block (config.tasks task).order
              config.shared (config.tasks task).stage
            = ((config.tasks task).stage, config.shared) := by
        rw [stage]
        rfl
      rw [step_of_nextStage next, proceed_same]
      exact ⟨done, base, serial, serially⟩

end Serial

-----------------------------------------------------------------------------------------
-- Runs
-----------------------------------------------------------------------------------------

/-- The successful calls applied their blocks in one order: as one chain from the head of
`start` to the head. Unless a call is writing, accounts and game world are those of applying
these blocks one after another.
-/
def InOneOrder (host : Host F) (start : Chain F) (config : Config ι (ApplyCall F) (Chain F))
    : Prop :=
  ∃ (done : List ι) (serial : Chain F),
    done.Nodup
    ∧ (∀ task, task ∈ done ↔ (config.tasks task).stage.Succeeded)
    ∧ Loop.run (importBlock host) (done.map (fun task => (config.tasks task).entry)) start
      = (.ok (), serial)
    ∧ (∀ head, start.head = some head →
        List.IsChain
          (fun parent header => PoaConsensus.FollowsParent host.crypto header parent)
          (head :: headers (done.map (fun task => (config.tasks task).entry)))
        ∧ config.shared.head
          = some ((headers (done.map (fun task => (config.tasks task).entry))).getLastD head))
    ∧ (Quiet config →
        config.shared.accounts host = serial.accounts host
        ∧ config.shared.gameWorld = serial.gameWorld)

theorem Serial.inOneOrder {start base serial : Chain F}
    {config : Config ι (ApplyCall F) (Chain F)} {done : List ι}
    (serially : Serial host start config done base serial)
    : InOneOrder host start config := by
  refine ⟨done, serial, serially.nodup, serially.succeeded, serially.applied, ?_, ?_⟩
  · intro head isHead
    obtain ⟨_, chained, last⟩ := run_importBlock_grows isHead serially.applied
    refine ⟨chained, ?_⟩
    rw [← last, ← serially.agrees.head]
    rcases serially.shared with ⟨_, same⟩ | ⟨writer, ⟨accepted, isAt⟩, _⟩
    · rw [same]
    · cases stage : (config.tasks writer).stage <;> rw [stage] at isAt <;>
        simp only [Accepted.At] at isAt
      case gameTick => rw [isAt.2.2]
      case commit => rw [isAt.2]
      case setHead => rw [isAt]
  · intro quiet
    rcases serially.shared with ⟨_, same⟩ | ⟨writer, partway, _⟩
    · rw [same]
      exact ⟨serially.agrees.accounts, serially.agrees.gameWorld⟩
    · exact absurd partway.writing (quiet writer)

/-- In every interleaving in which each call begins to write undisputed, the calls are as if
they had come one after another. The induction is on the steps of the schedule.
-/
theorem appliedInOrder [DecidableEq ι] {start : Chain F} (sound : host.account.RoundTrips)
    (readable : start.AccountsReadable host) (wellformed : start.gameWorld.ecs.Wellformed)
    {calls : ι → ApplyCall F} (fresh : ∀ task, (calls task).stage = .readHead)
    {schedule : List ι}
    (undisputed
      : Config.Meets (ApplyCall.act host) (Undisputed host) schedule
          { tasks := calls, shared := start })
    : InOneOrder host start
        (Config.run (ApplyCall.act host) schedule { tasks := calls, shared := start }) := by
  have begins
      : Serial host start ({ tasks := calls, shared := start } : Config ι _ _) [] start start := by
    refine ⟨List.nodup_nil, ?_, rfl, ⟨.refl readable wellformed, rfl, rfl⟩, rfl, ?_, ?_⟩
    · intro task
      simp [fresh, ApplyStage.Succeeded]
    · intro task parent parts isStage
      simp [fresh] at isStage
    · refine Or.inl ⟨?_, rfl⟩
      intro task writing
      simp [fresh, ApplyStage.Writing] at writing
  have serially := Config.run_invariant
    (fun config => ∃ done base serial, Serial host start config done base serial)
    (fun config task kept allowed => by
      obtain ⟨done, base, serial, serially⟩ := kept
      exact serially.step sound allowed)
    ⟨[], start, start, begins⟩ undisputed
  obtain ⟨done, base, serial, serially⟩ := serially
  exact serially.inOneOrder

/-- A node with a genesis block only. -/
def rivalNode : Chain Milli := .reference (Host.reference []) .reference 9 0

/-- Two calls that apply different empty blocks on top of the genesis block. -/
def rivalCalls (first : Bool) : ApplyCall Milli :=
  let block := Block.following (.genesis 0) []
  { block := if first then block else { block with header := { block.header with timestamp := 2 } }
    order := .ascending Milli
    stage := .readHead }

/-- What the two calls have done after a schedule of their steps. -/
def rivalRun (schedule : List Bool) : Config Bool (ApplyCall Milli) (Chain Milli) :=
  Config.run (ApplyCall.act (Host.reference [])) schedule
    { tasks := rivalCalls, shared := rivalNode }

theorem rivalNode_readable : rivalNode.AccountsReadable (Host.reference []) :=
  Account.wordCodec_readable _

/-- Both calls verify their blocks against the genesis block before one of them writes. -/
def bothVerified : List Bool :=
  [true, true, false, false, true, true, true, true, false, false, false, false]

/-- Both calls succeed, with two blocks of the same number. -/
theorem appliedInOrder_fails_for_rivals
    : ¬ ∀ (host : Host Milli) (start : Chain Milli) (calls : Bool → ApplyCall Milli)
          (schedule : List Bool),
        host.account.RoundTrips
        → start.AccountsReadable host
        → start.gameWorld.ecs.Wellformed
        → (∀ task, (calls task).stage = .readHead)
        → InOneOrder host start
            (Config.run (ApplyCall.act host) schedule { tasks := calls, shared := start }) := by
  intro claimed
  obtain ⟨done, _, _, succeeded, _, chained, _⟩ := claimed (Host.reference []) rivalNode
    rivalCalls bothVerified Account.wordCodec_roundTrips rivalNode_readable
    EcsWorld.wellformed_new (fun _ => rfl)
  have outcome
      : ∀ task,
          ((rivalRun bothVerified).tasks task).stage.Succeeded
          ∧ ((rivalRun bothVerified).tasks task).block.header.number = 1 := by
    decide +kernel
  have all : ∀ task, task ∈ done := fun task => (succeeded task).mpr (outcome task).1
  obtain ⟨chained, _⟩ := chained (.genesis 0) rfl
  cases done with
  | nil => exact absurd (all true) List.not_mem_nil
  | cons first rest =>
      cases rest with
      | nil =>
          have same := (List.mem_singleton.mp (all true)).trans
            (List.mem_singleton.mp (all false)).symm
          simp at same
      | cons second rest =>
          -- both blocks have number one, so neither follows the other
          have follows := (List.isChain_cons_cons.mp (List.isChain_cons_cons.mp chained).2).1
          have number
              : ((rivalRun bothVerified).tasks second).block.header.number
                = ((rivalRun bothVerified).tasks first).block.header.number + 1 :=
            follows.number
          rw [(outcome first).2, (outcome second).2] at number
          exact absurd number (by decide)

/-- The part of `Undisputed` that is left for blocks without transactions. -/
def Unrivalled (config : Config Bool (ApplyCall Milli) (Chain Milli)) (task : Bool) : Prop :=
  match (config.tasks task).stage with
  | .evmPhase parent _ =>
      config.shared.head = some parent ∧ ∀ other, ¬ (config.tasks other).stage.Writing
  | _ => True

instance (config : Config Bool (ApplyCall Milli) (Chain Milli)) (task : Bool)
    : Decidable (Unrivalled config task) := by
  unfold Unrivalled
  split <;> infer_instance

/-- The second call reads the head and verifies its block while the first one is on its way,
but does not begin to write.
-/
theorem appliedInOrder_rivals
    : InOneOrder (Host.reference []) rivalNode
        (rivalRun [true, false, true, true, false, true, true, true]) := by
  apply appliedInOrder Account.wordCodec_roundTrips rivalNode_readable EcsWorld.wellformed_new
    (fun _ => rfl)
  apply @Config.Meets.imp _ _ _ _ _
    (fun config => ∀ task, (config.tasks task).block.body.transactions = []) Unrivalled
  · intro config task empty
    exact Config.forall_update (fun call : ApplyCall Milli => call.block.body.transactions = [])
      (empty task) empty
  · intro config task empty unrivalled parent parts isStage
    rw [Unrivalled, isStage] at unrivalled
    refine ⟨unrivalled.1, unrivalled.2, Or.inr ⟨?_, ?_⟩⟩
    · intro tx member
      rw [empty] at member
      exact absurd member List.not_mem_nil
    · rw [AdmitsActions, gameEntries, empty]
      trivial
  · decide
  · decide +kernel

end VeloChain
