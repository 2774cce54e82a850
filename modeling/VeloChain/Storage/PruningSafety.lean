import VeloChain.Lib.CallTrace
import VeloChain.Storage.Pruning

/-! Pruning leaves the retention window alone.
A target is below the cutoff of the window at that moment. The window only moves up with the
head, so a block that has left it stays outside.
-/

namespace VeloChain

/-- The head that an operation reports. -/
def PruneOp.newHead : PruneOp → Option UInt64
  | .onNewBlock blockNumber => some blockNumber
  | _ => none

namespace PruningEngine

variable {engine after : PruningEngine} {targets : List PruneTarget}

/-- A block is outside the window exactly when the window is bounded and begins above it. -/
theorem isRetained_eq_false_iff {blockNumber : UInt64}
    : engine.isRetained blockNumber = false
      ↔ ∃ keep,
          engine.config.mode.retentionLimit = some keep
          ∧ keep ≤ engine.chainHead
          ∧ blockNumber < engine.chainHead - keep := by
  unfold isRetained
  cases engine.config.mode.retentionLimit with
  | none => simp
  | some keep => simp

/-- A block that has left the window stays outside as the head moves up. -/
theorem isRetained_mono {blockNumber : UInt64} (left : engine.isRetained blockNumber = false)
    (config : after.config = engine.config) (head : engine.chainHead ≤ after.chainHead)
    : after.isRetained blockNumber = false := by
  obtain ⟨keep, limit, beyond, below⟩ := isRetained_eq_false_iff.mp left
  refine isRetained_eq_false_iff.mpr ⟨keep, by rw [config, limit], ?_, ?_⟩
  · exact UInt64.le_trans beyond head
  · have higher := UInt64.le_trans beyond head
    rw [UInt64.lt_iff_toNat_lt, UInt64.toNat_sub_of_le _ _ beyond] at below
    rw [UInt64.lt_iff_toNat_lt, UInt64.toNat_sub_of_le _ _ higher]
    rw [UInt64.le_iff_toNat_le] at head
    omega

/-- What a generation returns is outside the window, no more than a batch. -/
theorem generatePruneTargets_safe
    (returns : engine.generatePruneTargets = some (targets, after))
    : after.config = engine.config
      ∧ after.chainHead = engine.chainHead
      ∧ targets.length ≤ engine.config.batchSize.toNat
      ∧ ∀ target ∈ targets, after.isRetained target.blockNumber = false := by
  rcases generatePruneTargets_cases returns with ⟨_, rfl, rfl⟩ | ⟨keep, limit, beyond, loops⟩
  · exact ⟨rfl, rfl, Nat.zero_le _, by simp⟩
  · obtain ⟨below, places, pendingQueue, lowestBlock, rfl⟩ := pruneLoop_frame loops
    refine ⟨rfl, rfl, by simpa using places, fun target member => ?_⟩
    exact isRetained_eq_false_iff.mpr
      ⟨keep, limit, UInt64.le_of_lt beyond, below target member⟩

/-- What a call returns is outside the window, no more than a batch, and nothing in archive
mode. A call moves the head where it reports one.
-/
theorem call_safe {op : PruneOp} (returns : call op engine = some (targets, after))
    : after.config = engine.config
      ∧ after.chainHead = op.newHead.getD engine.chainHead
      ∧ targets.length ≤ engine.config.batchSize.toNat
      ∧ (targets ≠ [] → op.newHead.isSome ∧ engine.config.mode ≠ .archive)
      ∧ ∀ target ∈ targets, after.isRetained target.blockNumber = false := by
  cases op with
  | enqueueBlock blockNumber blockHash =>
      obtain ⟨rfl, rfl⟩ := Prod.mk.inj (Option.some.inj returns)
      exact ⟨rfl, rfl, Nat.zero_le _, by simp, by simp⟩
  | onBlockPruned blockNumber =>
      obtain ⟨rfl, rfl⟩ := Prod.mk.inj (Option.some.inj returns)
      exact ⟨rfl, rfl, Nat.zero_le _, by simp, by simp⟩
  | onNewBlock blockNumber =>
      rcases onNewBlock_cases returns with ⟨_, rfl, rfl⟩ | ⟨full, _, generates⟩
      · exact ⟨rfl, rfl, Nat.zero_le _, by simp, by simp⟩
      · obtain ⟨config, head, places, safe⟩ := generatePruneTargets_safe generates
        exact ⟨config, head, places, fun _ => ⟨rfl, full⟩, safe⟩

theorem config_final (ops : List PruneOp) (engine : PruningEngine)
    : (CallTrace.final call ops engine).config = engine.config := by
  apply CallTrace.final_invariant (fun after : PruningEngine => after.config = engine.config)
  · exact fun op before targets after same returns => (call_safe returns).1.trans same
  · rfl

/-- Heads that are at or above the one of the engine leave a block outside the window, by
induction on the operations.
-/
theorem isRetained_final {ops : List PruneOp} {blockNumber : UInt64}
    (left : engine.isRetained blockNumber = false)
    (heads : (ops.filterMap PruneOp.newHead).Pairwise (· ≤ ·))
    (above : ∀ head ∈ ops.filterMap PruneOp.newHead, engine.chainHead ≤ head)
    : (CallTrace.final call ops engine).isRetained blockNumber = false := by
  induction ops generalizing engine with
  | nil => exact left
  | cons op rest ih =>
      obtain ⟨targets, after, returns⟩ := call_returns op engine
      obtain ⟨config, head, _⟩ := call_safe returns
      rw [CallTrace.final_cons_some returns]
      cases reports : op.newHead with
      | none =>
          rw [reports, Option.getD_none] at head
          rw [List.filterMap_cons_none reports] at heads above
          exact ih (isRetained_mono left config (UInt64.le_of_eq head.symm)) heads
            (head ▸ above)
      | some number =>
          rw [reports, Option.getD_some] at head
          rw [List.filterMap_cons_some reports] at heads above
          obtain ⟨here, heads⟩ := List.pairwise_cons.mp heads
          have higher := above number List.mem_cons_self
          exact ih (isRetained_mono left config (head ▸ higher)) heads (head ▸ here)

/-- In every run with heads that do not decrease, a call returns no more than a batch, nothing
in archive mode, and only blocks outside the window, which stay outside. The loop that generates
them ends, whatever the queue holds.
-/
theorem pruningSafety_run (config : PruningConfig) (lowestBlock : UInt64)
    (earlier later : List PruneOp) (op : PruneOp)
    (heads : ((earlier ++ op :: later).filterMap PruneOp.newHead).Pairwise (· ≤ ·))
    : ∃ targets after,
        call op (CallTrace.final call earlier (new config lowestBlock)) = some (targets, after)
        ∧ targets.length ≤ config.batchSize.toNat
        ∧ (config.mode = .archive → targets = [])
        ∧ (∀ target ∈ targets,
            after.isRetained target.blockNumber = false
            ∧ (CallTrace.final call later after).isRetained target.blockNumber = false)
        ∧ ∀ (engine : PruningEngine) (cutoff : UInt64),
            ∃ result,
              ∀ more,
                engine.pruneLoop cutoff (engine.config.batchSize.toNat + 1 + more) 0
                = some result := by
  have same := config_final earlier (new config lowestBlock)
  obtain ⟨targets, after, returns⟩ :=
    call_returns op (CallTrace.final call earlier (new config lowestBlock))
  obtain ⟨config', head, places, source, safe⟩ := call_safe returns
  rw [same] at places source
  refine ⟨targets, after, returns, places, ?_, fun target member => ?_, ?_⟩
  · intro archive
    by_contra some
    exact (source some).2 archive
  · refine ⟨safe target member, ?_⟩
    obtain ⟨number, reports⟩ :=
      Option.isSome_iff_exists.mp (source (List.ne_nil_of_mem member)).1
    rw [reports, Option.getD_some] at head
    rw [List.filterMap_append, List.filterMap_cons_some reports] at heads
    obtain ⟨here, heads⟩ := List.pairwise_cons.mp (List.pairwise_append.mp heads).2.1
    exact isRetained_final (safe target member) heads (head ▸ here)
  · intro engine cutoff
    obtain ⟨targets, after, returns⟩ :=
      @pruneLoop_returns engine cutoff engine.config.batchSize.toNat 0 (Nat.le_add_left _ _)
    exact ⟨(targets, after), returns⟩

/-- Five blocks are kept, and at most two pruned at a time. -/
def keepFive : PruningConfig := { mode := .keepRecent 5, batchSize := 2, intervalBlocks := 1 }

theorem pruningSafety_run_keepFive
    : ∃ targets after,
        call (.onNewBlock 10)
            (CallTrace.final call [.enqueueBlock 7 7, .enqueueBlock 2 2, .enqueueBlock 2 2]
              (new keepFive 0))
          = some (targets, after)
        ∧ targets.length ≤ keepFive.batchSize.toNat
        ∧ (keepFive.mode = .archive → targets = [])
        ∧ (∀ target ∈ targets,
            after.isRetained target.blockNumber = false
            ∧ (CallTrace.final call [.onNewBlock 10, .onNewBlock 12] after).isRetained
                target.blockNumber
              = false)
        ∧ ∀ (engine : PruningEngine) (cutoff : UInt64),
            ∃ result,
              ∀ more,
                engine.pruneLoop cutoff (engine.config.batchSize.toNat + 1 + more) 0
                = some result :=
  pruningSafety_run keepFive 0 [.enqueueBlock 7 7, .enqueueBlock 2 2, .enqueueBlock 2 2]
    [.onNewBlock 10, .onNewBlock 12] (.onNewBlock 10) (by decide)

end PruningEngine

end VeloChain
