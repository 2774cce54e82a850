import Mathlib.Algebra.GroupWithZero.Nat
import Mathlib.Logic.Basic
import Mathlib.Logic.Relation
import Mathlib.Data.List.Basic

/-! Runs of a component that is called from outside.
A call that returns gives a reply and the next state; one that does not return ends the run.
Laws of every run are shown for one call and lifted here.
-/

/-- A call that returned: the state it found, what was asked, the reply, the state it left. -/
structure ReturnedCall (σ α ρ : Type*) where
  before : σ
  op : α
  reply : ρ
  after : σ

namespace CallTrace

variable {σ α ρ : Type*}

/-- The calls of a run that returned, in order. -/
def calls (call : α → σ → Option (ρ × σ)) : List α → σ → List (ReturnedCall σ α ρ)
  | [], _ => []
  | op :: rest, state =>
      match call op state with
      | none => []
      | some (reply, next) => ⟨state, op, reply, next⟩ :: calls call rest next

/-- The state a run leaves. -/
def final (call : α → σ → Option (ρ × σ)) : List α → σ → σ
  | [], state => state
  | op :: rest, state =>
      match call op state with
      | none => state
      | some (_, next) => final call rest next

variable {call : α → σ → Option (ρ × σ)}

-----------------------------------------------------------------------------------------
-- Runs, call by call
-----------------------------------------------------------------------------------------

@[simp]
theorem calls_nil (state : σ) : calls call [] state = [] := rfl

theorem calls_cons_some {op : α} {rest : List α} {state next : σ} {reply : ρ}
    (returns : call op state = some (reply, next))
    : calls call (op :: rest) state = ⟨state, op, reply, next⟩ :: calls call rest next := by
  simp only [calls, returns]

theorem final_cons_some {op : α} {rest : List α} {state next : σ} {reply : ρ}
    (returns : call op state = some (reply, next))
    : final call (op :: rest) state = final call rest next := by
  simp only [final, returns]

theorem calls_cons_none {op : α} {rest : List α} {state : σ} (stops : call op state = none)
    : calls call (op :: rest) state = [] := by
  simp only [calls, stops]

theorem final_cons_none {op : α} {rest : List α} {state : σ} (stops : call op state = none)
    : final call (op :: rest) state = state := by
  simp only [final, stops]

/-- Each call of a run is one of the component. -/
theorem call_of_mem {ops : List α} {state : σ} {turn : ReturnedCall σ α ρ}
    (member : turn ∈ calls call ops state)
    : call turn.op turn.before = some (turn.reply, turn.after) := by
  induction ops generalizing state with
  | nil => simp at member
  | cons op rest ih =>
      cases returns : call op state with
      | none => simp [calls_cons_none returns] at member
      | some out =>
          rw [calls_cons_some returns] at member
          rcases List.mem_cons.mp member with rfl | later
          · exact returns
          · exact ih later

/-- Where every call returns, what is asked is what the operations say. -/
theorem map_op_calls {ops : List α} {state : σ}
    (returns : ∀ op s, ∃ reply next, call op s = some (reply, next))
    : (calls call ops state).map ReturnedCall.op = ops := by
  induction ops generalizing state with
  | nil => rfl
  | cons op rest ih =>
      obtain ⟨reply, next, done⟩ := returns op state
      rw [calls_cons_some done, List.map_cons, ih]

/-- Where every call returns, a run goes on where its beginning ends. -/
theorem final_append_of_returns {earlier later : List α} {state : σ}
    (returns : ∀ op s, ∃ reply next, call op s = some (reply, next))
    : final call (earlier ++ later) state = final call later (final call earlier state) := by
  induction earlier generalizing state with
  | nil => rfl
  | cons op rest ih =>
      obtain ⟨reply, next, done⟩ := returns op state
      rw [List.cons_append, final_cons_some done, final_cons_some done, ih]

/-- Where every call returns, the calls of a longer run are those of its beginning and those
after it.
-/
theorem calls_append_of_returns {earlier later : List α} {state : σ}
    (returns : ∀ op s, ∃ reply next, call op s = some (reply, next))
    : calls call (earlier ++ later) state
      = calls call earlier state ++ calls call later (final call earlier state) := by
  induction earlier generalizing state with
  | nil => rfl
  | cons op rest ih =>
      obtain ⟨reply, next, done⟩ := returns op state
      rw [List.cons_append, calls_cons_some done, calls_cons_some done, final_cons_some done, ih,
        List.cons_append]

/-- Where every call returns, a run makes all its calls. -/
theorem length_calls {ops : List α} {state : σ} (inv : σ → Prop)
    (returns : ∀ op s, inv s → ∃ reply next, call op s = some (reply, next) ∧ inv next)
    (start : inv state)
    : (calls call ops state).length = ops.length := by
  induction ops generalizing state with
  | nil => rfl
  | cons op rest ih =>
      obtain ⟨reply, next, done, kept⟩ := returns op state start
      rw [calls_cons_some done, List.length_cons, List.length_cons, ih kept]

-----------------------------------------------------------------------------------------
-- Invariants
-----------------------------------------------------------------------------------------

/-- What every call keeps holds after every run, by induction on the operations. -/
theorem final_invariant (inv : σ → Prop)
    (keeps : ∀ op s reply next, inv s → call op s = some (reply, next) → inv next)
    {ops : List α} {state : σ} (start : inv state)
    : inv (final call ops state) := by
  induction ops generalizing state with
  | nil => exact start
  | cons op rest ih =>
      cases returns : call op state with
      | none => rwa [final_cons_none returns]
      | some out =>
          rw [final_cons_some returns]
          exact ih (keeps op state out.1 out.2 start returns)

/-- What every call keeps holds before and after each call of a run. -/
theorem calls_invariant (inv : σ → Prop)
    (keeps : ∀ op s reply next, inv s → call op s = some (reply, next) → inv next)
    {ops : List α} {state : σ} (start : inv state)
    : ∀ turn ∈ calls call ops state, inv turn.before ∧ inv turn.after := by
  induction ops generalizing state with
  | nil => simp
  | cons op rest ih =>
      cases returns : call op state with
      | none => simp [calls_cons_none returns]
      | some out =>
          have kept := keeps op state out.1 out.2 start returns
          rw [calls_cons_some returns]
          exact List.forall_mem_cons.mpr ⟨⟨start, kept⟩, ih kept⟩

/-- A law that each call of this run keeps holds after all of them, by induction on the
operations.
-/
theorem forall_after {law : σ → Prop} {ops : List α} {state : σ}
    (keeps
      : ∀ turn ∈ calls call ops state, law turn.before
          → call turn.op turn.before = some (turn.reply, turn.after) → law turn.after)
    (start : law state)
    : ∀ turn ∈ calls call ops state, law turn.after := by
  induction ops generalizing state with
  | nil => simp
  | cons op rest ih =>
      cases returns : call op state with
      | none => simp [calls_cons_none returns]
      | some out =>
          rw [calls_cons_some returns] at keeps ⊢
          obtain ⟨first, others⟩ := List.forall_mem_cons.mp keeps
          have kept := first start returns
          exact List.forall_mem_cons.mpr ⟨kept, ih others kept⟩

/-- The calls of the beginning of a run are calls of the run. -/
theorem mem_calls_append {earlier later : List α} {state : σ} {turn : ReturnedCall σ α ρ}
    (member : turn ∈ calls call earlier state) : turn ∈ calls call (earlier ++ later) state := by
  induction earlier generalizing state with
  | nil => simp at member
  | cons op rest ih =>
      rw [List.cons_append]
      cases returns : call op state with
      | none => simp [calls_cons_none returns] at member
      | some out =>
          rw [calls_cons_some returns] at member ⊢
          exact List.mem_cons.mpr ((List.mem_cons.mp member).imp_right ih)

/-- Each call of a run is the last one of a beginning of it. -/
theorem exists_prefix_of_mem {ops : List α} {state : σ} {turn : ReturnedCall σ α ρ}
    (member : turn ∈ calls call ops state)
    : ∃ earlier later,
        ops = earlier ++ [turn.op] ++ later
        ∧ final call earlier state = turn.before
        ∧ final call (earlier ++ [turn.op]) state = turn.after := by
  induction ops generalizing state with
  | nil => simp at member
  | cons op rest ih =>
      cases returns : call op state with
      | none => simp [calls_cons_none returns] at member
      | some out =>
          rw [calls_cons_some returns] at member
          rcases List.mem_cons.mp member with rfl | later
          · exact ⟨[], rest, rfl, rfl, final_cons_some returns⟩
          · obtain ⟨earlier, more, split, before, after⟩ := ih later
            refine ⟨op :: earlier, more, by rw [split]; rfl, ?_, ?_⟩
            · rw [final_cons_some returns, before]
            · rw [List.cons_append, final_cons_some returns, after]

/-- What no call of a run undoes the run does not undo. -/
theorem final_append (le : σ → σ → Prop) (refl : ∀ s, le s s)
    (trans : ∀ r s t, le r s → le s t → le r t) {earlier later : List α} {state : σ}
    (steps : ∀ turn ∈ calls call (earlier ++ later) state, le turn.before turn.after)
    : le (final call earlier state) (final call (earlier ++ later) state) := by
  induction earlier generalizing state with
  | nil =>
      induction later generalizing state with
      | nil => exact refl state
      | cons op rest ih =>
          rw [List.nil_append] at steps ih ⊢
          cases returns : call op state with
          | none =>
              rw [final_cons_none returns]
              exact refl state
          | some out =>
              rw [calls_cons_some returns] at steps
              obtain ⟨first, others⟩ := List.forall_mem_cons.mp steps
              rw [final_cons_some returns]
              exact trans _ _ _ first (ih others)
  | cons op rest ih =>
      rw [List.cons_append] at steps ⊢
      cases returns : call op state with
      | none =>
          rw [final_cons_none returns, final_cons_none returns]
          exact refl state
      | some out =>
          rw [calls_cons_some returns] at steps
          rw [final_cons_some returns, final_cons_some returns]
          exact ih (List.forall_mem_cons.mp steps).2

/-- Nothing is undone between any two points of a run exactly when no call undoes it. -/
theorem segments_iff (le : σ → σ → Prop) (refl : ∀ s, le s s)
    (trans : ∀ r s t, le r s → le s t → le r t) {ops : List α} {state : σ}
    : (∀ earlier later more, ops = earlier ++ later ++ more →
          le (final call earlier state) (final call (earlier ++ later) state))
      ↔ ∀ turn ∈ calls call ops state, le turn.before turn.after := by
  constructor
  · intro segments turn member
    obtain ⟨earlier, later, split, before, after⟩ := exists_prefix_of_mem member
    rw [← before, ← after]
    exact segments earlier [turn.op] later split
  · intro steps earlier later more split
    apply final_append le refl trans
    intro turn member
    exact steps turn (split ▸ mem_calls_append member)

/-- A law of each call, under an invariant, holds at exactly the calls of a run that meet the
condition which decides it.
-/
theorem forall_calls_iff (inv : σ → Prop) {law guard : ReturnedCall σ α ρ → Prop}
    (keeps : ∀ op s reply next, inv s → call op s = some (reply, next) → inv next)
    (decides
      : ∀ turn : ReturnedCall σ α ρ, inv turn.before
          → call turn.op turn.before = some (turn.reply, turn.after) → (law turn ↔ guard turn))
    {ops : List α} {state : σ} (start : inv state)
    : (∀ turn ∈ calls call ops state, law turn)
      ↔ ∀ turn ∈ calls call ops state, guard turn := by
  apply forall₂_congr
  intro turn member
  exact decides turn (calls_invariant inv keeps start turn member).1 (call_of_mem member)

/-- A law that an allowed call keeps exactly when a condition on it is met holds throughout a
run of allowed calls exactly when every call meets the condition, by induction on the
operations.
-/
theorem kept_iff_of_allowed (inv law : σ → Prop) {allowed guard : ReturnedCall σ α ρ → Prop}
    (keeps
      : ∀ turn : ReturnedCall σ α ρ, inv turn.before → law turn.before → allowed turn
          → call turn.op turn.before = some (turn.reply, turn.after) → inv turn.after)
    (decides
      : ∀ turn : ReturnedCall σ α ρ, inv turn.before → law turn.before → allowed turn
          → call turn.op turn.before = some (turn.reply, turn.after)
          → (law turn.after ↔ guard turn))
    {ops : List α} {state : σ} (all : ∀ turn ∈ calls call ops state, allowed turn)
    (start : inv state) (holds : law state)
    : (∀ turn ∈ calls call ops state, law turn.after)
      ↔ ∀ turn ∈ calls call ops state, guard turn := by
  induction ops generalizing state with
  | nil => simp
  | cons op rest ih =>
      cases returns : call op state with
      | none => simp [calls_cons_none returns]
      | some out =>
          rw [calls_cons_some returns] at all
          obtain ⟨isAllowed, others⟩ := List.forall_mem_cons.mp all
          have here := decides ⟨state, op, out.1, out.2⟩ start holds isAllowed returns
          have kept := keeps ⟨state, op, out.1, out.2⟩ start holds isAllowed returns
          rw [calls_cons_some returns, List.forall_mem_cons, List.forall_mem_cons]
          constructor
          · rintro ⟨first, later⟩
            exact ⟨here.mp first, (ih others kept first).mp later⟩
          · rintro ⟨first, later⟩
            exact ⟨here.mpr first, (ih others kept (here.mpr first)).mpr later⟩

/-- The same where every call is allowed. -/
theorem kept_iff (inv law : σ → Prop) {guard : ReturnedCall σ α ρ → Prop}
    (keeps : ∀ op s reply next, inv s → call op s = some (reply, next) → inv next)
    (decides
      : ∀ turn : ReturnedCall σ α ρ, inv turn.before → law turn.before
          → call turn.op turn.before = some (turn.reply, turn.after)
          → (law turn.after ↔ guard turn))
    {ops : List α} {state : σ} (start : inv state) (holds : law state)
    : (∀ turn ∈ calls call ops state, law turn.after)
      ↔ ∀ turn ∈ calls call ops state, guard turn := by
  have allowed : ∀ turn ∈ calls call ops state, True := fun _ _ => trivial
  exact kept_iff_of_allowed inv law
    (fun turn held _ _ returns => keeps _ _ _ _ held returns)
    (fun turn held isLaw _ returns => decides turn held isLaw returns) allowed start holds

-----------------------------------------------------------------------------------------
-- Reachability
-----------------------------------------------------------------------------------------

/-- What allowed calls that return lead to is what a run of allowed operations leaves, by
induction on the calls from the first one on.
-/
theorem exists_final_of_reflTransGen {allowed : α → Prop} {state last : σ}
    (steps
      : Relation.ReflTransGen
          (fun s next => ∃ op reply, allowed op ∧ call op s = some (reply, next)) state last)
    : ∃ ops, (∀ op ∈ ops, allowed op) ∧ final call ops state = last := by
  induction steps using Relation.ReflTransGen.head_induction_on with
  | refl => exact ⟨[], by simp, rfl⟩
  | head step _ ih =>
      obtain ⟨op, reply, isAllowed, returns⟩ := step
      obtain ⟨ops, others, leads⟩ := ih
      exact ⟨op :: ops, List.forall_mem_cons.mpr ⟨isAllowed, others⟩,
        (final_cons_some returns).trans leads⟩

-----------------------------------------------------------------------------------------
-- Invariants of the past
-----------------------------------------------------------------------------------------

/-- A law that relates the calls made so far to the state they lead to is kept by each further
call, so it holds before every call of a run.
-/
theorem past_invariant (inv : List (ReturnedCall σ α ρ) → σ → Prop)
    (keeps
      : ∀ past (turn : ReturnedCall σ α ρ), inv past turn.before
          → call turn.op turn.before = some (turn.reply, turn.after)
          → inv (past ++ [turn]) turn.after)
    {ops : List α} {state : σ} {past : List (ReturnedCall σ α ρ)} (start : inv past state)
    {earlier later : List (ReturnedCall σ α ρ)} {turn : ReturnedCall σ α ρ}
    (split : calls call ops state = earlier ++ turn :: later)
    : inv (past ++ earlier) turn.before := by
  induction ops generalizing state past earlier with
  | nil => simp at split
  | cons op rest ih =>
      cases returns : call op state with
      | none => simp [calls_cons_none returns] at split
      | some out =>
          rw [calls_cons_some returns] at split
          cases earlier with
          | nil =>
              obtain ⟨rfl, _⟩ := List.cons.inj split
              rwa [List.append_nil]
          | cons first middle =>
              obtain ⟨rfl, rest'⟩ := List.cons.inj split
              have kept := keeps past ⟨state, op, out.1, out.2⟩ start returns
              have there := ih kept rest'
              rwa [List.append_assoc, List.singleton_append] at there

/-- The same at the end of a run. -/
theorem past_invariant_final (inv : List (ReturnedCall σ α ρ) → σ → Prop)
    (keeps
      : ∀ past (turn : ReturnedCall σ α ρ), inv past turn.before
          → call turn.op turn.before = some (turn.reply, turn.after)
          → inv (past ++ [turn]) turn.after)
    {ops : List α} {state : σ} {past : List (ReturnedCall σ α ρ)} (start : inv past state)
    : inv (past ++ calls call ops state) (final call ops state) := by
  induction ops generalizing state past with
  | nil => rwa [calls_nil, List.append_nil]
  | cons op rest ih =>
      cases returns : call op state with
      | none => rwa [calls_cons_none returns, final_cons_none returns, List.append_nil]
      | some out =>
          have kept := keeps past ⟨state, op, out.1, out.2⟩ start returns
          have there := ih kept
          rw [calls_cons_some returns, final_cons_some returns]
          rwa [List.append_assoc, List.singleton_append] at there

/-- A law of the past that a call keeps exactly when a condition on it is met holds throughout a
run exactly when every call meets the condition, by induction on the operations.
-/
theorem past_kept_iff (law : List (ReturnedCall σ α ρ) → σ → Prop)
    {guard : ReturnedCall σ α ρ → Prop}
    (decides
      : ∀ past (turn : ReturnedCall σ α ρ), law past turn.before
          → call turn.op turn.before = some (turn.reply, turn.after)
          → (law (past ++ [turn]) turn.after ↔ guard turn))
    {ops : List α} {state : σ} {past : List (ReturnedCall σ α ρ)} (holds : law past state)
    : (∀ earlier later, ops = earlier ++ later →
          law (past ++ calls call earlier state) (final call earlier state))
      ↔ ∀ turn ∈ calls call ops state, guard turn := by
  have atStart : law (past ++ calls call [] state) (final call [] state) := by
    rwa [calls_nil, List.append_nil]
  induction ops generalizing state past with
  | nil =>
      refine ⟨fun _ => by simp, fun _ earlier later split => ?_⟩
      rw [(List.append_eq_nil_iff.mp split.symm).1]
      exact atStart
  | cons op rest ih =>
      cases returns : call op state with
      | none =>
          rw [calls_cons_none returns]
          refine ⟨fun _ => by simp, fun _ earlier later split => ?_⟩
          cases earlier with
          | nil => exact atStart
          | cons first earlier =>
              obtain ⟨rfl, -⟩ := List.cons.inj split
              rwa [calls_cons_none returns, final_cons_none returns, List.append_nil]
      | some out =>
          have here := decides past ⟨state, op, out.1, out.2⟩ holds returns
          have later (kept : law (past ++ [⟨state, op, out.1, out.2⟩]) out.2) :=
            ih kept (by rwa [calls_nil, List.append_nil])
          rw [calls_cons_some returns, List.forall_mem_cons]
          constructor
          · intro all
            have kept := all [op] rest rfl
            rw [calls_cons_some returns, final_cons_some returns] at kept
            refine ⟨here.mp kept, (later kept).mp fun earlier more split => ?_⟩
            have := all (op :: earlier) more (by rw [split, List.cons_append])
            rw [calls_cons_some returns, final_cons_some returns] at this
            rwa [List.append_assoc, List.singleton_append]
          · intro all earlier more split
            cases earlier with
            | nil => exact atStart
            | cons first earlier =>
                obtain ⟨rfl, isRest⟩ := List.cons.inj split
                have := (later (here.mpr all.1)).mpr all.2 earlier more isRest
                rw [calls_cons_some returns, final_cons_some returns]
                rwa [List.append_assoc, List.singleton_append] at this

-----------------------------------------------------------------------------------------
-- Accounts of a run: what calls put in and take out
-----------------------------------------------------------------------------------------

section Allowed

variable {inv : σ → Prop} {allowed : ReturnedCall σ α ρ → Prop}
  (keeps
    : ∀ turn : ReturnedCall σ α ρ, inv turn.before → allowed turn
        → call turn.op turn.before = some (turn.reply, turn.after) → inv turn.after)

include keeps

/-- What every allowed call keeps holds before each call of a run of them, and at its end. -/
theorem invariant_of_allowed {ops : List α} {state : σ}
    (all : ∀ turn ∈ calls call ops state, allowed turn) (start : inv state)
    : (∀ turn ∈ calls call ops state, inv turn.before) ∧ inv (final call ops state) := by
  induction ops generalizing state with
  | nil => exact ⟨by simp, start⟩
  | cons op rest ih =>
      cases returns : call op state with
      | none =>
          rw [calls_cons_none returns, final_cons_none returns]
          exact ⟨by simp, start⟩
      | some out =>
          rw [calls_cons_some returns] at all ⊢
          obtain ⟨first, others⟩ := List.forall_mem_cons.mp all
          obtain ⟨before, last⟩ := ih others (keeps ⟨state, op, out.1, out.2⟩ start first returns)
          rw [final_cons_some returns]
          exact ⟨List.forall_mem_cons.mpr ⟨start, before⟩, last⟩

/-- What a run ends with and has taken out is what it began with and has put in, when this is
so for each call. By induction on the operations.
-/
theorem balance (measure : σ → Nat) (gain loss : ReturnedCall σ α ρ → Nat)
    (balanced
      : ∀ turn : ReturnedCall σ α ρ, inv turn.before → allowed turn
          → call turn.op turn.before = some (turn.reply, turn.after)
          → measure turn.after + loss turn = measure turn.before + gain turn)
    {ops : List α} {state : σ} (all : ∀ turn ∈ calls call ops state, allowed turn)
    (start : inv state)
    : measure (final call ops state) + ((calls call ops state).map loss).sum
      = measure state + ((calls call ops state).map gain).sum := by
  induction ops generalizing state with
  | nil => rfl
  | cons op rest ih =>
      cases returns : call op state with
      | none => rw [calls_cons_none returns, final_cons_none returns]; rfl
      | some out =>
          rw [calls_cons_some returns] at all
          obtain ⟨first, others⟩ := List.forall_mem_cons.mp all
          have here := balanced ⟨state, op, out.1, out.2⟩ start first returns
          have later := ih others (keeps ⟨state, op, out.1, out.2⟩ start first returns)
          rw [calls_cons_some returns, final_cons_some returns, List.map_cons, List.map_cons,
            List.sum_cons, List.sum_cons]
          simp only at here
          omega

end Allowed

end CallTrace
