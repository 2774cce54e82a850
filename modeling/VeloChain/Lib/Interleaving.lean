import Mathlib.Logic.Function.Basic

/-! Tasks that take turns on a state they share.
Each task has a local state; a step of a task changes its own local state and the shared one.
A schedule names the task of each step, so a statement about every schedule is one about every
interleaving.
-/

namespace Interleaving

variable {ι L S : Type*}

/-- The local states of the tasks, beside the state they share. -/
structure Config (ι L S : Type*) where
  tasks : ι → L
  shared : S

namespace Config

variable [DecidableEq ι] (act : L → S → L × S)

/-- One step of a task. -/
def step (config : Config ι L S) (task : ι) : Config ι L S :=
  { tasks := Function.update config.tasks task (act (config.tasks task) config.shared).1
    shared := (act (config.tasks task) config.shared).2 }

/-- The steps of a schedule, one after another. -/
def run (schedule : List ι) (config : Config ι L S) : Config ι L S :=
  schedule.foldl (step act) config

/-- Every step of the schedule is taken where the guard allows it. -/
def Meets (guard : Config ι L S → ι → Prop) : List ι → Config ι L S → Prop
  | [], _ => True
  | task :: rest, config => guard config task ∧ Meets guard rest (config.step act task)

instance Meets.decidable (guard : Config ι L S → ι → Prop)
    [∀ config task, Decidable (guard config task)]
    : ∀ schedule config, Decidable (Meets act guard schedule config)
  | [], _ => inferInstanceAs (Decidable True)
  | task :: rest, config =>
      have := Meets.decidable guard rest (config.step act task)
      inferInstanceAs (Decidable (_ ∧ _))

variable {act}

@[simp]
theorem tasks_step_self (config : Config ι L S) (task : ι)
    : (config.step act task).tasks task = (act (config.tasks task) config.shared).1 :=
  Function.update_self _ _ _

theorem tasks_step_of_ne {task other : ι} (different : other ≠ task) (config : Config ι L S)
    : (config.step act task).tasks other = config.tasks other :=
  Function.update_of_ne different _ _

/-- A step, by what the task does. -/
theorem step_eq {config : Config ι L S} {task : ι} {next : L} {shared : S}
    (acts : act (config.tasks task) config.shared = (next, shared))
    : config.step act task = { tasks := Function.update config.tasks task next, shared } := by
  rw [step, acts]

/-- What some task satisfies is a fact about the task that steps, or survives the step. -/
theorem exists_update_or {tasks : ι → L} {task : ι} {next : L} (p : L → Prop)
    (found : ∃ other, p (tasks other))
    : p (tasks task) ∨ ∃ other, p (Function.update tasks task next other) := by
  obtain ⟨other, holds⟩ := found
  by_cases same : other = task
  · subst same
    exact Or.inl holds
  · exact Or.inr ⟨other, by rwa [Function.update_of_ne same]⟩

/-- What some task satisfied it still satisfies after a step that keeps it. -/
theorem exists_update {tasks : ι → L} {task : ι} {next : L} (p : L → Prop)
    (found : ∃ other, p (tasks other)) (kept : p (tasks task) → p next)
    : ∃ other, p (Function.update tasks task next other) := by
  rcases exists_update_or p found with before | after
  · exact ⟨task, by rw [Function.update_self]; exact kept before⟩
  · exact after

/-- What a task satisfies after a step is a fact about the new state, or was there before. -/
theorem of_update {tasks : ι → L} {task other : ι} {next : L} (p : L → Prop)
    (holds : p (Function.update tasks task next other))
    : p next ∨ ∃ other, p (tasks other) := by
  by_cases same : other = task
  · subst same
    rw [Function.update_self] at holds
    exact Or.inl holds
  · rw [Function.update_of_ne same] at holds
    exact Or.inr ⟨other, holds⟩

/-- What holds of the new state of a task and of the others holds of all tasks. -/
theorem forall_update {tasks : ι → L} {task : ι} {next : L} (p : L → Prop)
    (moved : p next) (others : ∀ other, p (tasks other))
    : ∀ other, p (Function.update tasks task next other) := by
  intro other
  by_cases same : other = task
  · subst same
    rwa [Function.update_self]
  · rw [Function.update_of_ne same]
    exact others other

/-- What allowed steps keep holds after every schedule of them, by induction on the schedule. -/
theorem run_invariant (inv : Config ι L S → Prop) {guard : Config ι L S → ι → Prop}
    (keeps : ∀ config task, inv config → guard config task → inv (config.step act task))
    {schedule : List ι} {config : Config ι L S} (start : inv config)
    (meets : Meets act guard schedule config)
    : inv (config.run act schedule) := by
  induction schedule generalizing config with
  | nil => exact start
  | cons task rest ih => exact ih (keeps config task start meets.1) meets.2

/-- What every step keeps holds after every schedule, by induction on the schedule. -/
theorem run_stays (inv : Config ι L S → Prop)
    (keeps : ∀ config task, inv config → inv (config.step act task))
    (schedule : List ι) {config : Config ι L S} (start : inv config)
    : inv (config.run act schedule) := by
  induction schedule generalizing config with
  | nil => exact start
  | cons task rest ih => exact ih (keeps config task start)

/-- What a task is ready for holds once it has taken a step, by induction on the schedule: the
other tasks leave it ready, and no step undoes what it did.
-/
theorem run_of_mem {task : ι} (ready settled : Config ι L S → Prop)
    (waits : ∀ config other, other ≠ task → ready config → ready (config.step act other))
    (acts : ∀ config, ready config → settled (config.step act task))
    (stays : ∀ config other, settled config → settled (config.step act other))
    {schedule : List ι} (member : task ∈ schedule) {config : Config ι L S}
    (start : ready config)
    : settled (config.run act schedule) := by
  induction schedule generalizing config with
  | nil => cases member
  | cons next rest ih =>
      by_cases same : next = task
      · subst same
        exact run_stays settled stays rest (acts config start)
      · exact ih ((List.mem_cons.mp member).resolve_left (Ne.symm same))
          (waits config next same start)

/-- Steps that one guard allows another one allows as well, if what every step keeps makes up
for the difference. The induction is on the schedule.
-/
theorem Meets.imp (inv : Config ι L S → Prop) {guard weaker : Config ι L S → ι → Prop}
    (keeps : ∀ config task, inv config → inv (config.step act task))
    (implies : ∀ config task, inv config → guard config task → weaker config task)
    {schedule : List ι} {config : Config ι L S} (start : inv config)
    (meets : Meets act guard schedule config)
    : Meets act weaker schedule config := by
  induction schedule generalizing config with
  | nil => trivial
  | cons task rest ih =>
      exact ⟨implies config task start meets.1, ih (keeps config task start) meets.2⟩

end Config

end Interleaving
