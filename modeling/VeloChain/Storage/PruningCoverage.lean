import Mathlib.Data.List.Nodup
import VeloChain.Lib.CountedList
import VeloChain.Storage.PruningSafety

/-! Which blocks pruning reaches.
The lowest block jumps behind every queued block that is pruned, so the numbers in between are
passed over. They are all reached exactly when the queue goes on where the lowest block stands.
-/

namespace VeloChain

open CountedList

/-- The number that an operation queues. -/
def PruneOp.queued : PruneOp → Option UInt64
  | .enqueueBlock blockNumber _ => some blockNumber
  | _ => none

namespace PruningEngine

/-- The numbers of blocks that are waiting in the queue, in order. -/
def queuedNumbers (engine : PruningEngine) : List UInt64 := engine.pendingQueue.map Prod.fst

/-- The leading queued numbers below a cutoff, at most as many as given. -/
def readyNumbers (engine : PruningEngine) (cutoff : UInt64) (room : Nat) : List UInt64 :=
  (engine.queuedNumbers.takeWhile (· < cutoff)).take room

/-- Where an operation runs a generation, the queued blocks of its batch have the numbers from
the lowest block on, without a gap.
-/
def InSequence (engine : PruningEngine) : PruneOp → Prop
  | .onNewBlock blockNumber =>
      ∀ keep,
        engine.config.mode.retentionLimit = some keep
        → engine.config.intervalBlocks ≤ blockNumber - engine.lastPruneBlock
        → keep < blockNumber
        → engine.lowestBlock < blockNumber - keep
        → CountsFrom UInt64.toNat engine.lowestBlock.toNat
            (engine.readyNumbers (blockNumber - keep) engine.config.batchSize.toNat)
  | _ => True

/-- The numbers of the targets that the calls of a run return. -/
def returned (ops : List PruneOp) (engine : PruningEngine) : List UInt64 :=
  (CallTrace.calls call ops engine).flatMap (fun turn => turn.reply.map PruneTarget.blockNumber)

/-- Every number from `first` up to but excluding `lowest` is listed once, and no other. -/
def Covers (first : UInt64) (numbers : List UInt64) (lowest : UInt64) : Prop :=
  ∀ number, numbers.count number = if first ≤ number ∧ number < lowest then 1 else 0

variable {engine after : PruningEngine} {cutoff : UInt64} {targets : List PruneTarget}

-----------------------------------------------------------------------------------------
-- The numbers of one generation
-----------------------------------------------------------------------------------------

/-- Where the front of the queue is ready, it is the first of the ready numbers. -/
theorem readyNumbers_of_front {num : UInt64} {hash : B256} {queue : List (UInt64 × B256)}
    {count : Nat} (front : engine.pendingQueue = (num, hash) :: queue) (ready : num < cutoff)
    (room : count < engine.config.batchSize.toNat) (lowestBlock : UInt64)
    : engine.readyNumbers cutoff (engine.config.batchSize.toNat - count)
      = num
        :: { engine with pendingQueue := queue, lowestBlock }.readyNumbers cutoff
            (engine.config.batchSize.toNat - (count + 1)) := by
  have left
      : engine.config.batchSize.toNat - count
        = engine.config.batchSize.toNat - (count + 1) + 1 := by omega
  simp only [readyNumbers, queuedNumbers, front, List.map_cons]
  rw [List.takeWhile_cons_of_pos (by simpa using ready), left, List.take_succ_cons]

theorem readyNumbers_of_empty {room : Nat} (front : engine.pendingQueue = [])
    : engine.readyNumbers cutoff room = [] := by
  simp [readyNumbers, queuedNumbers, front]

/-- Where a turn pushes nothing below the cutoff, no queued block is ready. -/
theorem readyNumbers_of_ends {count : Nat} (ends : engine.pruneNext cutoff count = none)
    (below : cutoff ≤ engine.lowestBlock → ∀ number ∈ engine.queuedNumbers, cutoff ≤ number)
    : engine.readyNumbers cutoff (engine.config.batchSize.toNat - count) = [] := by
  by_cases room : count < engine.config.batchSize.toNat
  · cases queue : engine.pendingQueue with
    | nil => exact readyNumbers_of_empty queue
    | cons head rest =>
        have waits : ¬ head.1 < cutoff := by
          intro ready
          by_cases low : engine.lowestBlock < cutoff
          · simp [pruneNext, low, room, queue, ready] at ends
          · have front : head.1 ∈ engine.queuedNumbers := by simp [queuedNumbers, queue]
            exact UInt64.not_lt.mpr (below (UInt64.not_lt.mp low) head.1 front) ready
        simp only [readyNumbers, queuedNumbers, queue, List.map_cons]
        rw [List.takeWhile_cons_of_neg (by simpa using UInt64.not_lt.mp waits), List.take_nil]
  · rw [readyNumbers, Nat.sub_eq_zero_of_le (Nat.le_of_not_lt room), List.take_zero]

/-- Queued blocks that are ready come first, by induction on the turns. Once the lowest block
has reached the cutoff, none is ready any more.
-/
theorem pruneLoop_ready {turns count : Nat}
    (returns : engine.pruneLoop cutoff turns count = some (targets, after))
    (ascending : engine.queuedNumbers.Pairwise (· < ·))
    (below : cutoff ≤ engine.lowestBlock → ∀ number ∈ engine.queuedNumbers, cutoff ≤ number)
    : engine.readyNumbers cutoff (engine.config.batchSize.toNat - count)
        <+: targets.map PruneTarget.blockNumber := by
  revert ascending below
  refine pruneLoop_induction
    (motive := fun engine count targets _ =>
      engine.queuedNumbers.Pairwise (· < ·)
      → (cutoff ≤ engine.lowestBlock → ∀ number ∈ engine.queuedNumbers, cutoff ≤ number)
      → engine.readyNumbers cutoff (engine.config.batchSize.toNat - count)
          <+: targets.map PruneTarget.blockNumber)
    ?ends ?queued ?lowest returns
  case ends =>
    intro engine count ends _ below
    rw [readyNumbers_of_ends ends below]
    exact List.nil_prefix
  case queued =>
    intro engine _ turns count num hash queue targets front ready room _ ih ascending _
    simp only [queuedNumbers, front, List.map_cons] at ascending
    obtain ⟨least, ascending⟩ := List.pairwise_cons.mp ascending
    rw [readyNumbers_of_front front ready room (num + 1), List.map_cons]
    refine List.cons_prefix_cons.mpr ⟨rfl, ih ascending ?_⟩
    intro reached number member
    have higher := least number member
    rw [UInt64.le_iff_toNat_le, toNat_succ_of_lt ready] at reached
    rw [UInt64.lt_iff_toNat_lt] at higher
    rw [UInt64.le_iff_toNat_le]
    omega
  case lowest =>
    intro engine _ turns count targets front _ _ _ _ _ _
    rw [readyNumbers_of_empty front]
    exact List.nil_prefix

/-- What is below the queue and the lowest block is below every target. -/
theorem pruneLoop_above {turns count : Nat} {number : UInt64}
    (returns : engine.pruneLoop cutoff turns count = some (targets, after))
    (queue : ∀ queued ∈ engine.queuedNumbers, number < queued)
    (lowest : number < engine.lowestBlock)
    : ∀ target ∈ targets, number < target.blockNumber := by
  revert queue lowest
  refine pruneLoop_induction
    (motive := fun engine _ targets _ =>
      (∀ queued ∈ engine.queuedNumbers, number < queued)
      → number < engine.lowestBlock
      → ∀ target ∈ targets, number < target.blockNumber)
    ?ends ?queued ?lowest returns
  case ends => simp
  case queued =>
    intro engine _ turns count num hash rest targets front ready _ _ ih queue _
    simp only [queuedNumbers, front, List.map_cons, List.forall_mem_cons] at queue
    refine List.forall_mem_cons.mpr ⟨queue.1, ih queue.2 ?_⟩
    have := UInt64.lt_iff_toNat_lt.mp queue.1
    rw [UInt64.lt_iff_toNat_lt, toNat_succ_of_lt ready]
    omega
  case lowest =>
    intro engine _ turns count targets _ below _ _ ih queue lowest
    refine List.forall_mem_cons.mpr ⟨lowest, ih queue ?_⟩
    have := UInt64.lt_iff_toNat_lt.mp lowest
    rw [UInt64.lt_iff_toNat_lt, toNat_succ_of_lt below]
    omega

/-- The targets ascend, by induction on the turns. -/
theorem pruneLoop_ascending {turns count : Nat}
    (returns : engine.pruneLoop cutoff turns count = some (targets, after))
    (ascending : engine.queuedNumbers.Pairwise (· < ·))
    : (targets.map PruneTarget.blockNumber).Pairwise (· < ·) := by
  revert ascending
  refine pruneLoop_induction
    (motive := fun engine _ targets _ =>
      engine.queuedNumbers.Pairwise (· < ·)
      → (targets.map PruneTarget.blockNumber).Pairwise (· < ·))
    ?ends ?queued ?lowest returns
  case ends => exact fun _ _ _ _ => .nil
  case queued =>
    intro engine _ turns count num hash queue targets front ready _ later ih ascending
    simp only [queuedNumbers, front, List.map_cons] at ascending
    obtain ⟨least, ascending⟩ := List.pairwise_cons.mp ascending
    refine List.pairwise_cons.mpr ⟨List.forall_mem_map.mpr ?_, ih ascending⟩
    apply pruneLoop_above later least
    rw [UInt64.lt_iff_toNat_lt, toNat_succ_of_lt ready]
    exact Nat.lt_succ_self _
  case lowest =>
    intro engine _ turns count targets front below _ later ih ascending
    refine List.pairwise_cons.mpr ⟨List.forall_mem_map.mpr ?_, ih ascending⟩
    apply pruneLoop_above later
    · simp [queuedNumbers, front]
    · rw [UInt64.lt_iff_toNat_lt, toNat_succ_of_lt below]
      exact Nat.lt_succ_self _

/-- Where the ready blocks follow the lowest block, all targets do, and the lowest block is
behind the last of them. By induction on the turns.
-/
theorem pruneLoop_counts {turns count : Nat}
    (returns : engine.pruneLoop cutoff turns count = some (targets, after))
    (counts
      : CountsFrom UInt64.toNat engine.lowestBlock.toNat
          (engine.readyNumbers cutoff (engine.config.batchSize.toNat - count)))
    : CountsFrom UInt64.toNat engine.lowestBlock.toNat (targets.map PruneTarget.blockNumber)
      ∧ after.lowestBlock.toNat = engine.lowestBlock.toNat + targets.length := by
  revert counts
  refine pruneLoop_induction
    (motive := fun engine count targets after =>
      CountsFrom UInt64.toNat engine.lowestBlock.toNat
        (engine.readyNumbers cutoff (engine.config.batchSize.toNat - count))
      → CountsFrom UInt64.toNat engine.lowestBlock.toNat (targets.map PruneTarget.blockNumber)
        ∧ after.lowestBlock.toNat = engine.lowestBlock.toNat + targets.length)
    ?ends ?queued ?lowest returns
  case ends => exact fun _ _ _ _ => ⟨countsFrom_nil _, rfl⟩
  case queued =>
    intro engine _ turns count num hash queue targets front ready room _ ih counts
    rw [readyNumbers_of_front front ready room (num + 1), countsFrom_cons] at counts
    obtain ⟨starts, counts⟩ := counts
    have rest := ih (by rw [toNat_succ_of_lt ready, starts]; exact counts)
    rw [toNat_succ_of_lt ready, starts] at rest
    rw [List.map_cons, countsFrom_cons, List.length_cons]
    exact ⟨⟨starts, rest.1⟩, by omega⟩
  case lowest =>
    intro engine _ turns count targets front below _ _ ih _
    have rest := ih (by
      rw [readyNumbers_of_empty]
      · exact countsFrom_nil _
      · exact front)
    rw [toNat_succ_of_lt below] at rest
    rw [List.map_cons, countsFrom_cons, List.length_cons]
    exact ⟨⟨rfl, rest.1⟩, by omega⟩

/-- The loop takes blocks from the front of the queue. -/
theorem pruneLoop_queue {turns count : Nat}
    (returns : engine.pruneLoop cutoff turns count = some (targets, after))
    : after.queuedNumbers <:+ engine.queuedNumbers := by
  refine pruneLoop_induction
    (motive := fun engine _ _ after => after.queuedNumbers <:+ engine.queuedNumbers)
    ?ends ?queued ?lowest returns
  case ends => exact fun _ _ _ => List.suffix_refl _
  case queued =>
    intro engine after turns count num hash queue targets front _ _ _ rest
    simp only [queuedNumbers, front, List.map_cons] at rest ⊢
    exact rest.trans (List.suffix_cons _ _)
  case lowest => exact fun _ _ _ _ _ _ _ _ _ rest => rest

-----------------------------------------------------------------------------------------
-- Coverage
-----------------------------------------------------------------------------------------

/-- Numbers that extend a covered range and leave no gap follow it one after another. -/
theorem Covers.counts {first lowest next : UInt64} {numbers more : List UInt64}
    (covers : Covers first numbers lowest) (le : first ≤ lowest)
    (ascending : more.Pairwise (· < ·)) (extended : Covers first (numbers ++ more) next)
    : CountsFrom UInt64.toNat lowest.toNat more := by
  have listed (number : UInt64) (member : number ∈ more) : lowest ≤ number ∧ number < next := by
    have once := extended number
    have before := covers number
    have some := List.count_pos_iff.mpr member
    rw [List.count_append] at once
    split at once
    next inside =>
      split at before
      next => omega
      next outside =>
        exact ⟨UInt64.not_lt.mp fun low => outside ⟨inside.1, low⟩, inside.2⟩
    next => omega
  refine countsFrom_of_ascending ?_ ?_ ?_
  · exact ascending.imp fun below => UInt64.lt_iff_toNat_lt.mp below
  · exact fun number member => UInt64.le_iff_toNat_le.mp (listed number member).1
  · intro number member n low high
    have small : n < 2 ^ 64 := Nat.lt_trans high number.toNat_lt
    have isNat : (UInt64.ofNat n).toNat = n := UInt64.toNat_ofNat_of_lt small
    have above : lowest ≤ UInt64.ofNat n := by rwa [UInt64.le_iff_toNat_le, isNat]
    have below : UInt64.ofNat n < number := by rwa [UInt64.lt_iff_toNat_lt, isNat]
    have once := extended (UInt64.ofNat n)
    have before := covers (UInt64.ofNat n)
    rw [if_pos ⟨UInt64.le_trans le above, UInt64.lt_trans below (listed number member).2⟩,
      List.count_append] at once
    rw [if_neg fun inside => UInt64.not_lt.mpr above inside.2] at before
    exact List.mem_map.mpr ⟨UInt64.ofNat n, List.count_pos_iff.mp (by omega), isNat⟩

/-- Numbers that follow a covered range one after another extend it. -/
theorem Covers.append {first lowest next : UInt64} {numbers more : List UInt64}
    (covers : Covers first numbers lowest) (le : first ≤ lowest)
    (counts : CountsFrom UInt64.toNat lowest.toNat more)
    (ends : next.toNat = lowest.toNat + more.length)
    : Covers first (numbers ++ more) next := by
  intro number
  have nodup : more.Nodup := by
    apply List.Nodup.of_map UInt64.toNat
    rw [counts]
    exact List.nodup_range'
  have listed : number ∈ more ↔ lowest ≤ number ∧ number < next := by
    rw [← List.mem_map_of_injective (fun _ _ => UInt64.toNat.inj), counts, List.mem_range'_1,
      ← ends, UInt64.le_iff_toNat_le, UInt64.lt_iff_toNat_lt]
  have later : lowest ≤ next := by
    rw [UInt64.le_iff_toNat_le]
    omega
  rw [List.count_append, covers number, List.Nodup.count nodup]
  simp only [listed, UInt64.le_iff_toNat_le, UInt64.lt_iff_toNat_lt] at le later ⊢
  split <;> split <;> split <;> omega

/-- The generating loop has nothing to do where the lowest block has reached the cutoff. -/
theorem pruneLoop_of_reached {turns count : Nat} (reached : cutoff ≤ engine.lowestBlock)
    (returns : engine.pruneLoop cutoff turns count = some (targets, after))
    : targets = [] ∧ after = engine := by
  rcases pruneLoop_cases returns with ⟨_, none, same⟩ | ⟨_, _, _, _, pushes, _, _⟩
  · exact ⟨none, same⟩
  · exact absurd (pruneNext_cases pushes).1 (UInt64.not_lt.mpr reached)

/-- What a call does to queue and lowest block: nothing is pruned, or a generation runs on the
queue and the lowest block that it finds.
-/
theorem call_cases {op : PruneOp} (returns : call op engine = some (targets, after))
    : targets = [] ∧ after.lowestBlock = engine.lowestBlock
        ∧ after.queuedNumbers = engine.queuedNumbers ++ op.queued.toList
        ∧ engine.InSequence op
      ∨ op.queued = none
        ∧ ∃ (cutoff : UInt64) (generating : PruningEngine),
            generating.lowestBlock = engine.lowestBlock
            ∧ generating.queuedNumbers = engine.queuedNumbers
            ∧ engine.lowestBlock < cutoff
            ∧ generating.pruneLoop cutoff (generating.config.batchSize.toNat + 1) 0
              = some (targets, after)
            ∧ (engine.InSequence op
              ↔ CountsFrom UInt64.toNat generating.lowestBlock.toNat
                  (generating.readyNumbers cutoff generating.config.batchSize.toNat)) := by
  cases op with
  | enqueueBlock blockNumber blockHash =>
      obtain ⟨rfl, rfl⟩ := Prod.mk.inj (Option.some.inj returns)
      exact Or.inl ⟨rfl, rfl, List.map_append, trivial⟩
  | onBlockPruned blockNumber =>
      obtain ⟨rfl, rfl⟩ := Prod.mk.inj (Option.some.inj returns)
      exact Or.inl ⟨rfl, rfl, (List.append_nil _).symm, trivial⟩
  | onNewBlock blockNumber =>
      rcases onNewBlock_cases returns with ⟨skips, rfl, rfl⟩ | ⟨_, due, generates⟩
      · refine Or.inl ⟨rfl, rfl, (List.append_nil _).symm, fun keep limit due => ?_⟩
        rcases skips with archive | early
        · simp [archive, PruningMode.retentionLimit] at limit
        · exact absurd early (UInt64.not_lt.mpr due)
      · rcases generatePruneTargets_cases generates with ⟨within, rfl, rfl⟩
          | ⟨keep, limit, beyond, loops⟩
        · refine Or.inl ⟨rfl, rfl, (List.append_nil _).symm, fun keep limit _ beyond => ?_⟩
          exact absurd beyond (UInt64.not_lt.mpr (within keep limit))
        · have isKeep {other : UInt64} (isLimit : engine.config.mode.retentionLimit = some other)
              : other = keep :=
            Option.some.inj (isLimit.symm.trans limit)
          by_cases below : engine.lowestBlock < blockNumber - keep
          · refine Or.inr ⟨rfl, blockNumber - keep, _, ?_, ?_, below, loops, ?_⟩
            · rfl
            · rfl
            · constructor
              · exact fun inSequence => inSequence keep limit due beyond below
              · intro counts other isLimit _ _ _
                obtain rfl := isKeep isLimit
                exact counts
          · obtain ⟨rfl, rfl⟩ :=
              @pruneLoop_of_reached { engine.withHead blockNumber with
                lastPruneBlock := blockNumber } _ _ _ _ _ (UInt64.not_lt.mp below) loops
            refine Or.inl ⟨rfl, rfl, (List.append_nil _).symm, fun other isLimit _ _ lower => ?_⟩
            obtain rfl := isKeep isLimit
            exact absurd lower below

/-- A call extends a covered range exactly where the batch is in sequence. -/
theorem covers_call_iff {op : PruneOp} {first : UInt64} {numbers : List UInt64}
    (returns : call op engine = some (targets, after))
    (ascending : engine.queuedNumbers.Pairwise (· < ·))
    (covers : Covers first numbers engine.lowestBlock) (le : first ≤ engine.lowestBlock)
    : (Covers first (numbers ++ targets.map PruneTarget.blockNumber) after.lowestBlock
        ↔ engine.InSequence op)
      ∧ (engine.InSequence op → first ≤ after.lowestBlock) := by
  rcases call_cases returns with ⟨rfl, same, _, inSequence⟩
    | ⟨_, cutoff, generating, lowest, queue, below, loops, decides⟩
  · rw [List.map_nil, List.append_nil, same]
    exact ⟨iff_of_true covers inSequence, fun _ => le⟩
  · rw [← lowest] at covers le below
    rw [← queue] at ascending
    rw [decides]
    refine ⟨⟨fun extended => ?_, fun ready => ?_⟩, fun ready => ?_⟩
    · obtain ⟨rest, split⟩ := pruneLoop_ready loops ascending
        fun reached => absurd below (UInt64.not_lt.mpr reached)
      have counts := covers.counts le (pruneLoop_ascending loops ascending) extended
      rw [← split] at counts
      exact counts.of_append
    · obtain ⟨counts, ends⟩ := pruneLoop_counts loops ready
      exact covers.append le counts (by rw [List.length_map]; exact ends)
    · have ends := (pruneLoop_counts loops ready).2
      rw [UInt64.le_iff_toNat_le] at le ⊢
      omega

/-- Calls keep the queue in order as long as the numbers ascend. -/
theorem ascending_call {op : PruneOp} {later : List UInt64}
    (returns : call op engine = some (targets, after))
    (ascending : (engine.queuedNumbers ++ (op.queued.toList ++ later)).Pairwise (· < ·))
    : (after.queuedNumbers ++ later).Pairwise (· < ·) := by
  rcases call_cases returns with ⟨_, _, queue, _⟩ | ⟨none, _, _, _, queue, _, loops, _⟩
  · rw [queue, List.append_assoc]
    exact ascending
  · rw [none, Option.toList_none, List.nil_append] at ascending
    have suffix := pruneLoop_queue loops
    rw [queue] at suffix
    exact ascending.sublist (suffix.sublist.append_right later)

theorem filterMap_queued_cons (op : PruneOp) (rest : List PruneOp)
    : (op :: rest).filterMap PruneOp.queued
      = op.queued.toList ++ rest.filterMap PruneOp.queued := by
  rw [List.filterMap_cons]
  cases op.queued with
  | none => rfl
  | some number => rfl

/-- In a run from a covered range on, the range is covered throughout exactly where every
generation finds its batch in sequence. By induction on the operations.
-/
theorem covers_run_iff {first : UInt64} {numbers : List UInt64} {ops : List PruneOp}
    (ascending
      : (engine.queuedNumbers ++ ops.filterMap PruneOp.queued).Pairwise (· < ·))
    (covers : Covers first numbers engine.lowestBlock) (le : first ≤ engine.lowestBlock)
    : (∀ earlier later, ops = earlier ++ later →
          Covers first (numbers ++ returned earlier engine)
            (CallTrace.final call earlier engine).lowestBlock)
      ↔ ∀ turn ∈ CallTrace.calls call ops engine, turn.before.InSequence turn.op := by
  induction ops generalizing engine numbers with
  | nil =>
      refine iff_of_true (fun earlier later split => ?_) (by simp)
      obtain ⟨rfl, _⟩ := List.append_eq_nil_iff.mp split.symm
      rw [returned, CallTrace.calls_nil, List.flatMap_nil, List.append_nil]
      exact covers
  | cons op rest ih =>
      obtain ⟨targets, after, returns⟩ := call_returns op engine
      obtain ⟨decides, above⟩ :=
        covers_call_iff returns (List.pairwise_append.mp ascending).1 covers le
      rw [filterMap_queued_cons] at ascending
      have ordered := ascending_call returns ascending
      have onward (earlier : List PruneOp)
          : numbers ++ returned (op :: earlier) engine
            = numbers ++ targets.map PruneTarget.blockNumber ++ returned earlier after := by
        rw [returned, CallTrace.calls_cons_some returns, List.flatMap_cons, List.append_assoc]
        rfl
      rw [CallTrace.calls_cons_some returns, List.forall_mem_cons]
      constructor
      · intro throughout
        have extended := throughout [op] rest rfl
        rw [onward, CallTrace.final_cons_some returns, returned, CallTrace.calls_nil,
          List.flatMap_nil, List.append_nil] at extended
        have inSequence := decides.mp extended
        refine ⟨inSequence, (ih ordered extended (above inSequence)).mp ?_⟩
        intro earlier later split
        rw [← onward, ← CallTrace.final_cons_some returns]
        exact throughout (op :: earlier) later (by rw [split]; rfl)
      · rintro ⟨inSequence, others⟩ earlier later split
        cases earlier with
        | nil =>
            rw [returned, CallTrace.calls_nil, List.flatMap_nil, List.append_nil]
            exact covers
        | cons first_ middle =>
            obtain ⟨rfl, rest_⟩ := List.cons.inj split
            rw [onward, CallTrace.final_cons_some returns]
            exact (ih ordered (decides.mpr inSequence) (above inSequence)).mpr others middle
              later rest_

/-- In every run whose queued numbers ascend, the numbers from the initial lowest block up to
the current one have been returned once each, and no others, in all its states, exactly where
every generation finds the queued blocks of its batch in sequence.
-/
theorem pruningCoverage_run_iff (config : PruningConfig) (lowestBlock : UInt64)
    (ops : List PruneOp) (numbers : (ops.filterMap PruneOp.queued).Pairwise (· < ·))
    : (∀ earlier later, ops = earlier ++ later →
          Covers lowestBlock (returned earlier (new config lowestBlock))
            (CallTrace.final call earlier (new config lowestBlock)).lowestBlock)
      ↔ ∀ turn ∈ CallTrace.calls call ops (new config lowestBlock),
          turn.before.InSequence turn.op := by
  refine @covers_run_iff (new config lowestBlock) lowestBlock [] ops numbers ?_ ?_
  · intro number
    rw [List.count_nil, if_neg]
    rintro ⟨above, below⟩
    exact UInt64.not_lt.mpr above below
  · exact UInt64.le_refl lowestBlock

/-- Block 5 is queued over a database that starts at 0, and the head moves on to 12. -/
def queueAboveLowest : List PruneOp := [.enqueueBlock 5 5, .onNewBlock 12]

theorem pruningCoverage_run_iff_queueAboveLowest
    : (∀ earlier later, queueAboveLowest = earlier ++ later →
          Covers 0 (returned earlier (new keepFive 0))
            (CallTrace.final call earlier (new keepFive 0)).lowestBlock)
      ↔ ∀ turn ∈ CallTrace.calls call queueAboveLowest (new keepFive 0),
          turn.before.InSequence turn.op :=
  pruningCoverage_run_iff keepFive 0 queueAboveLowest (by decide)

/-- The lowest block is 7 then, and the blocks 0 to 4 have not been returned. -/
theorem pruningCoverage_fails
    : ¬ ∀ config lowestBlock ops,
        config.mode ≠ .archive
        → (ops.filterMap PruneOp.newHead).Pairwise (· ≤ ·)
        → (ops.filterMap PruneOp.queued).Pairwise (· < ·)
        → (∀ turn ∈ CallTrace.calls call ops (new config lowestBlock),
            ∀ number ∈ turn.op.queued, turn.before.chainHead ≤ number)
        → Covers lowestBlock (returned ops (new config lowestBlock))
            (CallTrace.final call ops (new config lowestBlock)).lowestBlock := by
  intro claimed
  have aboveHead
      : ∀ turn ∈ CallTrace.calls call queueAboveLowest (new keepFive 0),
          turn.op.queued.all (fun number => decide (turn.before.chainHead ≤ number)) = true := by
    decide
  have covers := claimed keepFive 0 queueAboveLowest (by decide) (by decide) (by decide) (by
    intro turn member number queued
    have above := aboveHead turn member
    rw [Option.mem_def.mp queued] at above
    exact of_decide_eq_true above)
  exact absurd (covers 4) (by decide)

end PruningEngine

end VeloChain
