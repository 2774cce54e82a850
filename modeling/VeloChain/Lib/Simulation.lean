import VeloChain.Lib.Loop

/-! Simulations of single steps, lifted to sequences of them.
What the user of a machine sees are the replies to a sequence of operations; an abstraction that
follows every operation follows every sequence. One fallible step mirrors another one for a
relation of their states when, started in related states, they reply alike and leave related
states; then sequences and loops of mirrored steps are mirrored.
-/

namespace Transcript

variable {ι ρ σ τ : Type*}

/-- The replies to the operations in order, and the state they leave. -/
def run (step : ι → σ → ρ × σ) : List ι → σ → List ρ × σ
  | [], state => ([], state)
  | op :: rest, state =>
      let (reply, next) := step op state
      let (replies, final) := run step rest next
      (reply :: replies, final)

variable {step : ι → σ → ρ × σ}

/-- Where an abstraction of the states follows every operation and agrees on its reply, it
follows every run and agrees on its replies.
-/
theorem run_abstract {step' : ι → τ → ρ × τ} (abstraction : σ → τ) (inv : σ → Prop)
    (follows
      : ∀ op state, inv state →
          step' op (abstraction state) = ((step op state).1, abstraction (step op state).2)
          ∧ inv (step op state).2)
    {ops : List ι} {state : σ} (start : inv state)
    : run step' ops (abstraction state)
        = ((run step ops state).1, abstraction (run step ops state).2)
      ∧ inv (run step ops state).2 := by
  induction ops generalizing state with
  | nil => exact ⟨rfl, start⟩
  | cons op rest ih =>
      obtain ⟨followed, kept⟩ := follows op state start
      obtain ⟨later, final⟩ := ih kept
      refine ⟨?_, final⟩
      simp only [run, followed, later]

end Transcript

namespace Mirroring

variable {α ε σ τ : Type*}

/-- A step that may fail; the state it leaves is kept either way. -/
abbrev Step (ε σ : Type*) := σ → Except ε Unit × σ

/-- Fail with this error. -/
def fail (e : ε) : Step ε σ := fun state => (.error e, state)

/-- The first step, and the second one unless the first has failed. -/
def andThen (first second : Step ε σ) : Step ε σ := fun state =>
  match first state with
  | (.ok (), next) => second next
  | (.error e, stop) => (.error e, stop)

/-- Run all steps whatever they reply, and collect the replies. -/
def runAll (step : α → Step ε σ) : List α → σ → List (Except ε Unit) × σ
  | [], state => ([], state)
  | item :: rest, state =>
      let (reply, next) := step item state
      let (replies, last) := runAll step rest next
      (reply :: replies, last)

/-- Related states are led to related ones, with the same reply. -/
def Mirrors (related : σ → τ → Prop) (left : Step ε σ) (right : Step ε τ) : Prop :=
  ∀ s t, related s t → (left s).1 = (right t).1 ∧ related (left s).2 (right t).2

variable {related : σ → τ → Prop}

theorem Mirrors.fail (e : ε) : Mirrors related (fail e) (Mirroring.fail e) :=
  fun _ _ isRelated => ⟨rfl, isRelated⟩

theorem Mirrors.andThen {first second : Step ε σ} {first' second' : Step ε τ}
    (mirrors : Mirrors related first first') (later : Mirrors related second second')
    : Mirrors related (andThen first second) (Mirroring.andThen first' second') := by
  intro s t isRelated
  obtain ⟨sameReply, isRelated⟩ := mirrors s t isRelated
  unfold Mirroring.andThen
  rcases outcome : first s with ⟨_ | _, next⟩
  · rcases outcome' : first' t with ⟨_ | _, next'⟩
    · rw [outcome, outcome'] at sameReply isRelated
      exact ⟨congrArg Except.error (Except.error.inj sameReply), isRelated⟩
    · rw [outcome, outcome'] at sameReply
      cases sameReply
  · rcases outcome' : first' t with ⟨_ | _, next'⟩
    · rw [outcome, outcome'] at sameReply
      cases sameReply
    · rw [outcome, outcome'] at isRelated
      exact later next next' isRelated

/-- By induction on the items. -/
theorem Mirrors.loop {body : α → Step ε σ} {body' : α → Step ε τ}
    (mirrors : ∀ item, Mirrors related (body item) (body' item)) (items : List α)
    : Mirrors related (Loop.run body items) (Loop.run body' items) := by
  induction items with
  | nil => exact fun _ _ isRelated => ⟨rfl, isRelated⟩
  | cons item rest ih => exact (mirrors item).andThen ih

/-- Where the steps mirror each other so do their runs, by induction on the items. -/
theorem Mirrors.runAll {step : α → Step ε σ} {step' : α → Step ε τ}
    (mirrors : ∀ item, Mirrors related (step item) (step' item)) {items : List α} {s : σ} {t : τ}
    (isRelated : related s t)
    : (runAll step items s).1 = (Mirroring.runAll step' items t).1
      ∧ related (Mirroring.runAll step items s).2 (Mirroring.runAll step' items t).2 := by
  induction items generalizing s t with
  | nil => exact ⟨rfl, isRelated⟩
  | cons item rest ih =>
      obtain ⟨sameReply, isRelated⟩ := mirrors item s t isRelated
      obtain ⟨sameReplies, isRelated⟩ := ih isRelated
      exact ⟨congrArg₂ List.cons sameReply sameReplies, isRelated⟩

end Mirroring
