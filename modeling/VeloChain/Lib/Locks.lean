import Mathlib.Algebra.Order.BigOperators.Group.Finset
import Mathlib.Data.Fintype.EquivFin
import Mathlib.Data.Fintype.Lattice
import Mathlib.Logic.Relation
import VeloChain.Lib.Interleaving

/-! Tasks that take read and write locks on a state they share.
Where a task stands tells which locks it holds and which one it takes next. A task that waits
for a lock takes no step until the tasks that stand in its way have let go. In a deadlock some
task waits for a lock that comes, in any order of the locks, before or at one that it holds.
-/

namespace Locks

open Interleaving

variable {ι κ L S : Type*}

inductive Mode
  | read
  | write
  deriving DecidableEq

/-- Two tasks cannot hold a lock in these modes at the same time. -/
def Mode.Excludes (left right : Mode) : Prop := left = .write ∨ right = .write

instance (left right : Mode) : Decidable (left.Excludes right) :=
  inferInstanceAs (Decidable (_ ∨ _))

theorem Mode.Excludes.symm {left right : Mode} (excludes : left.Excludes right)
    : right.Excludes left :=
  Or.comm.mp excludes

/-- The locks of a task, by where it stands: those it holds, and the one it takes next. -/
structure Discipline (κ L : Type*) where
  holds : L → List (κ × Mode)
  wants : L → Option (κ × Mode)
  finished : L → Prop

variable [DecidableEq ι] (discipline : Discipline κ L) (act : L → S → L × S)

/-- One task wants a lock that another one holds. -/
def Discipline.WaitsFor (waiting holding : L) : Prop :=
  ∃ lock mode mode',
    discipline.wants waiting = some (lock, mode) ∧ (lock, mode') ∈ discipline.holds holding
    ∧ mode.Excludes mode'

/-- A task cannot step: it wants a lock that another one holds. -/
def Discipline.Blocked (tasks : ι → L) (task : ι) : Prop :=
  ∃ other, other ≠ task ∧ discipline.WaitsFor (tasks task) (tasks other)

/-- A step of a task that has not finished and is not blocked. -/
inductive Step : Config ι L S → Config ι L S → Prop
  | step {config : Config ι L S} (task : ι)
    (unfinished : ¬ discipline.finished (config.tasks task))
    (free : ¬ discipline.Blocked config.tasks task)
    : Step config (config.step act task)

/-- The configurations that some interleaving leads to. -/
def Reachable : Config ι L S → Config ι L S → Prop :=
  Relation.ReflTransGen (Step discipline act)

/-- Some task has not finished, and every such task is blocked. -/
def Deadlock (config : Config ι L S) : Prop :=
  (∃ task, ¬ discipline.finished (config.tasks task))
  ∧ ∀ task, ¬ discipline.finished (config.tasks task) → discipline.Blocked config.tasks task

variable {discipline} {act}

/-- What every step keeps holds in every reachable configuration. -/
theorem Reachable.invariant {start config : Config ι L S}
    (reachable : Reachable discipline act start config) (inv : Config ι L S → Prop)
    (keeps
      : ∀ (before : Config ι L S) (task : ι),
          inv before → ¬ discipline.finished (before.tasks task)
          → ¬ discipline.Blocked before.tasks task → inv (before.step act task))
    (initially : inv start)
    : inv config := by
  induction reachable with
  | refl => exact initially
  | tail _ step ih =>
      cases step with
      | step task unfinished free => exact keeps _ task ih unfinished free

-----------------------------------------------------------------------------------------
-- What a deadlock contains
-----------------------------------------------------------------------------------------

omit [DecidableEq ι] in
/-- In a deadlock of tasks that hold locks only before they finish, some task waits for a lock
that does not come after one that it holds. Among the locks that are waited for, one of the
highest rank is held by a task that waits for another one.
-/
theorem Deadlock.exists_out_of_order [Finite ι] {config : Config ι L S}
    (deadlock : Deadlock discipline config)
    (released : ∀ l, discipline.finished l → discipline.holds l = []) (rank : κ → Nat)
    : ∃ task lock mode lock' mode',
        discipline.wants (config.tasks task) = some (lock, mode)
        ∧ (lock', mode') ∈ discipline.holds (config.tasks task) ∧ rank lock ≤ rank lock' := by
  obtain ⟨⟨some_, isUnfinished⟩, blocked⟩ := deadlock
  let awaited (task : { task // ¬ discipline.finished (config.tasks task) }) : Nat :=
    (discipline.wants (config.tasks task)).elim 0 (fun wanted => rank wanted.1)
  have : Nonempty { task // ¬ discipline.finished (config.tasks task) } :=
    ⟨⟨some_, isUnfinished⟩⟩
  obtain ⟨⟨highest, unfinished⟩, isHighest⟩ := Finite.exists_max awaited
  obtain ⟨holder, _, lock, mode, mode', wanted, held, _⟩ := blocked highest unfinished
  have holderUnfinished : ¬ discipline.finished (config.tasks holder) := by
    intro finished
    rw [released _ finished] at held
    exact List.not_mem_nil held
  obtain ⟨_, _, lock', mode'', _, wanted', _, _⟩ := blocked holder holderUnfinished
  refine ⟨holder, lock', mode'', lock, mode', wanted', held, ?_⟩
  have le := isHighest ⟨holder, holderUnfinished⟩
  simpa only [awaited, wanted, wanted', Option.elim_some] using le

-----------------------------------------------------------------------------------------
-- How a deadlock comes about
-----------------------------------------------------------------------------------------

/-- Two tasks that wait for each other keep doing so, and where every task takes finitely many
steps, the others finish or get stuck as well.
-/
theorem exists_deadlock [Fintype ι] {config : Config ι L S} (measure : L → Nat)
    (progress
      : ∀ l s, ¬ discipline.finished l → measure (act l s).1 < measure l)
    {left right : ι} (different : left ≠ right)
    (leftUnfinished : ¬ discipline.finished (config.tasks left))
    (leftWaits : discipline.WaitsFor (config.tasks left) (config.tasks right))
    (rightWaits : discipline.WaitsFor (config.tasks right) (config.tasks left))
    : ∃ last, Reachable discipline act config last ∧ Deadlock discipline last := by
  induction left_ : ∑ task, measure (config.tasks task) using Nat.strong_induction_on
    generalizing config with
  | _ sum ih =>
      by_cases stuck
          : ∀ task, ¬ discipline.finished (config.tasks task)
              → discipline.Blocked config.tasks task
      · exact ⟨config, .refl, ⟨left, leftUnfinished⟩, stuck⟩
      · push Not at stuck
        obtain ⟨task, unfinished, free⟩ := stuck
        have notLeft : left ≠ task := by
          rintro rfl
          exact free ⟨right, different.symm, leftWaits⟩
        have notRight : right ≠ task := by
          rintro rfl
          exact free ⟨left, different, rightWaits⟩
        have less
            : ∑ other, measure ((config.step act task).tasks other)
              < ∑ other, measure (config.tasks other) := by
          apply Finset.sum_lt_sum
          · intro other _
            by_cases same : other = task
            · subst same
              rw [Config.tasks_step_self]
              exact (progress _ _ unfinished).le
            · rw [Config.tasks_step_of_ne same]
          · refine ⟨task, Finset.mem_univ task, ?_⟩
            rw [Config.tasks_step_self]
            exact progress _ _ unfinished
        have sameLeft : (config.step act task).tasks left = config.tasks left :=
          Config.tasks_step_of_ne notLeft config
        have sameRight : (config.step act task).tasks right = config.tasks right :=
          Config.tasks_step_of_ne notRight config
        obtain ⟨last, reachable, deadlock⟩ := ih _ (left_ ▸ less)
          (by rwa [sameLeft]) (by rwa [sameLeft, sameRight]) (by rwa [sameLeft, sameRight]) rfl
        exact ⟨last, .head (.step task unfinished free) reachable, deadlock⟩

/-- A number of steps of one task with no other in between. -/
def alone (act : L → S → L × S) : Nat → L → S → L × S
  | 0, l, s => (l, s)
  | steps + 1, l, s => alone act steps (act l s).1 (act l s).2

/-- A task runs on its own as long as no other one holds a lock. -/
theorem reachable_alone {config : Config ι L S} (task : ι) (steps : Nat)
    (idle : ∀ other, other ≠ task → discipline.holds (config.tasks other) = [])
    (stays : ∀ l s, discipline.finished l → act l s = (l, s))
    : Reachable discipline act config
        { tasks :=
            Function.update config.tasks task
              (alone act steps (config.tasks task) config.shared).1
          shared := (alone act steps (config.tasks task) config.shared).2 } := by
  induction steps generalizing config with
  | zero =>
      rw [alone, Function.update_eq_self]
      exact .refl
  | succ steps ih =>
      have rest := @ih (config.step act task) fun other different => by
        rw [Config.tasks_step_of_ne different]
        exact idle other different
      rw [Config.tasks_step_self, Config.step, Function.update_idem] at rest
      by_cases finished : discipline.finished (config.tasks task)
      · rw [stays _ _ finished, Function.update_eq_self] at rest
        rw [alone, stays _ _ finished]
        exact rest
      · refine .head (.step task finished ?_) rest
        rintro ⟨other, different, lock, mode, mode', _, held, _⟩
        rw [idle other different] at held
        exact List.not_mem_nil held

end Locks
