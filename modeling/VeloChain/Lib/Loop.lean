import Mathlib.Data.List.Basic
import Mathlib.Algebra.Ring.Int.Defs

/-! Loops that leave early with an error and keep the state they had reached.
A loop body returns a result and a state; the first error ends the loop, and the state of
that moment is the state of the whole loop.
-/

namespace Loop

variable {α ε σ τ : Type*}

/-- Run `body` over the list, stopping at the first error without undoing anything. -/
def run (body : α → σ → Except ε Unit × σ) : List α → σ → Except ε Unit × σ
  | [], state => (.ok (), state)
  | item :: rest, state =>
      match body item state with
      | (.ok (), next) => run body rest next
      | (.error e, stop) => (.error e, stop)

/-- One execution of the loop body: its item and the states around it. -/
structure Turn (α σ : Type*) where
  item : α
  before : σ
  after : σ

/-- The executions of the body in order, the failing one included. -/
def turns (body : α → σ → Except ε Unit × σ) : List α → σ → List (Turn α σ)
  | [], _ => []
  | item :: rest, state =>
      match body item state with
      | (.ok (), next) => ⟨item, state, next⟩ :: turns body rest next
      | (.error _, stop) => [⟨item, state, stop⟩]

variable {body : α → σ → Except ε Unit × σ}

@[simp]
theorem run_nil (state : σ) : run body [] state = (.ok (), state) := rfl

@[simp]
theorem turns_nil (state : σ) : turns body [] state = [] := rfl

-----------------------------------------------------------------------------------------
-- Runs
-----------------------------------------------------------------------------------------

theorem run_cons_ok {item : α} {rest : List α} {state next : σ}
    (h : body item state = (.ok (), next))
    : run body (item :: rest) state = run body rest next := by
  simp only [run, h]

theorem run_cons_error {item : α} {rest : List α} {state stop : σ} {e : ε}
    (h : body item state = (.error e, stop))
    : run body (item :: rest) state = (.error e, stop) := by
  simp only [run, h]

theorem turns_cons_ok {item : α} {rest : List α} {state next : σ}
    (h : body item state = (.ok (), next))
    : turns body (item :: rest) state = ⟨item, state, next⟩ :: turns body rest next := by
  simp only [turns, h]

theorem body_cases (body : α → σ → Except ε Unit × σ) (item : α) (state : σ)
    : (∃ next, body item state = (.ok (), next))
      ∨ ∃ e stop, body item state = (.error e, stop) := by
  rcases h : body item state with ⟨_ | _, next⟩
  · exact Or.inr ⟨_, _, rfl⟩
  · exact Or.inl ⟨_, rfl⟩

/-- A loop over a list succeeds exactly when its first turn does and the rest does from there. -/
theorem run_cons_ok_iff {item : α} {rest : List α} {state final : σ}
    : run body (item :: rest) state = (.ok (), final)
      ↔ ∃ next, body item state = (.ok (), next) ∧ run body rest next = (.ok (), final) := by
  constructor
  · intro h
    rcases body_cases body item state with ⟨next, hb⟩ | ⟨e, stop, hb⟩
    · rw [run_cons_ok hb] at h
      exact ⟨next, hb, h⟩
    · simp [run_cons_error hb] at h
  · rintro ⟨next, hb, h⟩
    rw [run_cons_ok hb, h]

/-- A successful call and the state it leaves. -/
theorem eq_of_ok {value : α} {call : Except ε α × σ} (ok : call.1 = .ok value)
    : call = (.ok value, call.2) :=
  Prod.ext ok rfl

theorem run_append_ok {left right : List α} {state middle : σ}
    (h : run body left state = (.ok (), middle))
    : run body (left ++ right) state = run body right middle := by
  induction left generalizing state with
  | nil =>
      simp only [run_nil, Prod.mk.injEq, true_and] at h
      rw [List.nil_append, h]
  | cons item rest ih =>
      obtain ⟨next, hb, h⟩ := run_cons_ok_iff.mp h
      rw [List.cons_append, run_cons_ok hb, ih h]

theorem run_append_error {left right : List α} {state stop : σ} {e : ε}
    (h : run body left state = (.error e, stop))
    : run body (left ++ right) state = (.error e, stop) := by
  induction left generalizing state with
  | nil => simp at h
  | cons item rest ih =>
      rcases body_cases body item state with ⟨next, hb⟩ | ⟨e', stop', hb⟩
      · rw [run_cons_ok hb] at h
        rw [List.cons_append, run_cons_ok hb, ih h]
      · rw [run_cons_error hb] at h
        rw [List.cons_append, run_cons_error hb, h]

/-- A successful loop over two lists, one after the other, is two successful loops. -/
theorem run_append_ok_iff {left right : List α} {state final : σ}
    : run body (left ++ right) state = (.ok (), final)
      ↔ ∃ middle,
          run body left state = (.ok (), middle) ∧ run body right middle = (.ok (), final) := by
  constructor
  · intro h
    rcases first : run body left state with ⟨e | _, middle⟩
    · rw [run_append_error first] at h
      simp at h
    · rw [run_append_ok first] at h
      exact ⟨middle, rfl, h⟩
  · rintro ⟨middle, first, second⟩
    rw [run_append_ok first, second]

/-- What every turn preserves, the loop preserves, also when it stops early. -/
theorem run_invariant {items : List α} {state : σ} (inv : σ → Prop)
    (step : ∀ item ∈ items, ∀ s, inv s → inv (body item s).2) (start : inv state)
    : inv (run body items state).2 := by
  induction items generalizing state with
  | nil => exact start
  | cons item rest ih =>
      have first := step item (by simp) state start
      have later := fun other member => step other (List.mem_cons_of_mem item member)
      rcases body_cases body item state with ⟨next, hb⟩ | ⟨e, stop, hb⟩
      · rw [run_cons_ok hb]
        exact ih later (by simpa only [hb] using first)
      · rw [run_cons_error hb]
        simpa only [hb] using first

/-- A log to which every successful turn appends the entries of its item has in the end those
of all items.
-/
theorem run_log {β : Type*} (log : σ → List β) (entries : α → List β) {items : List α}
    {state final : σ} (run : run body items state = (.ok (), final))
    (appends
      : ∀ item ∈ items, ∀ before after, body item before = (.ok (), after) →
          log after = log before ++ entries item)
    : log final = log state ++ items.flatMap entries := by
  induction items generalizing state with
  | nil =>
      simp only [run_nil, Prod.mk.injEq, true_and] at run
      rw [run, List.flatMap_nil, List.append_nil]
  | cons item rest ih =>
      obtain ⟨next, turn, run⟩ := run_cons_ok_iff.mp run
      rw [ih run (fun other member => appends other (List.mem_cons_of_mem item member)),
        appends item List.mem_cons_self state next turn, List.flatMap_cons, List.append_assoc]

/-- A loop whose every turn succeeds under an invariant succeeds. -/
theorem run_ok {items : List α} {state : σ} (inv : σ → Prop)
    (step : ∀ item ∈ items, ∀ s, inv s → ∃ next, body item s = (.ok (), next) ∧ inv next)
    (start : inv state)
    : ∃ final, run body items state = (.ok (), final) ∧ inv final := by
  induction items generalizing state with
  | nil => exact ⟨state, rfl, start⟩
  | cons item rest ih =>
      obtain ⟨next, hb, hinv⟩ := step item (by simp) state start
      rw [run_cons_ok hb]
      exact ih (fun other member => step other (List.mem_cons_of_mem item member)) hinv

/-- Under an invariant that decides each turn by its item alone, a loop succeeds exactly when
every item lets its turn succeed.
-/
theorem run_ok_iff {items : List α} {state : σ} (inv : σ → Prop) {admitted : α → Prop}
    (decided : ∀ item ∈ items, ∀ s, inv s → ((body item s).1 = .ok () ↔ admitted item))
    (step : ∀ item ∈ items, ∀ s, inv s → inv (body item s).2) (start : inv state)
    : (run body items state).1 = .ok () ↔ ∀ item ∈ items, admitted item := by
  induction items generalizing state with
  | nil => simp
  | cons item rest ih =>
      have here := decided item (by simp) state start
      have kept := step item (by simp) state start
      rw [List.forall_mem_cons, ← here]
      rcases body_cases body item state with ⟨next, hb⟩ | ⟨e, stop, hb⟩
      · have later := fun other member => decided other (List.mem_cons_of_mem item member)
        have keeps := fun other member => step other (List.mem_cons_of_mem item member)
        rw [run_cons_ok hb, ih later keeps (by simpa only [hb] using kept)]
        simp only [hb, true_and]
      · simp only [run_cons_error hb, hb, reduceCtorEq, false_and]

/-- Loops whose bodies agree on the items agree. -/
theorem run_congr {body' : α → σ → Except ε Unit × σ} {items : List α}
    (same : ∀ item ∈ items, ∀ s, body item s = body' item s) (state : σ)
    : run body items state = run body' items state := by
  induction items generalizing state with
  | nil => rfl
  | cons item rest ih =>
      have later := ih (fun other member => same other (List.mem_cons_of_mem item member))
      simp only [run, same item List.mem_cons_self, later]

/-- Turns that succeed without a change can be left out. -/
theorem run_filter {items : List α} {state : σ} {keep : α → Bool}
    (skips : ∀ item ∈ items, keep item = false → ∀ s, body item s = (.ok (), s))
    : run body items state = run body (items.filter keep) state := by
  induction items generalizing state with
  | nil => rfl
  | cons item rest ih =>
      have later := fun other member => skips other (List.mem_cons_of_mem item member)
      cases kept : keep item with
      | false =>
          rw [run_cons_ok (skips item List.mem_cons_self kept state), ih later,
            List.filter_cons_of_neg (by simp [kept])]
      | true =>
          rw [List.filter_cons_of_pos kept]
          rcases body_cases body item state with ⟨next, hb⟩ | ⟨e, stop, hb⟩
          · rw [run_cons_ok hb, run_cons_ok hb, ih later]
          · rw [run_cons_error hb, run_cons_error hb]

/-- Two loops over one list whose turns keep a relation end with the same result in
related states.
-/
theorem run_lockstep {body' : α → τ → Except ε Unit × τ} (rel : σ → τ → Prop)
    {items : List α} {state : σ} {state' : τ}
    (step
      : ∀ item ∈ items, ∀ s t, rel s t →
          (body item s).1 = (body' item t).1 ∧ rel (body item s).2 (body' item t).2)
    (start : rel state state')
    : (run body items state).1 = (run body' items state').1
      ∧ rel (run body items state).2 (run body' items state').2 := by
  induction items generalizing state state' with
  | nil => exact ⟨rfl, start⟩
  | cons item rest ih =>
      obtain ⟨same, related⟩ := step item (by simp) state state' start
      have later := fun other member => step other (List.mem_cons_of_mem item member)
      rcases body_cases body item state with ⟨next, hb⟩ | ⟨e, stop, hb⟩
        <;> rcases body_cases body' item state' with ⟨next', hb'⟩ | ⟨e', stop', hb'⟩
        <;> simp only [hb, hb', reduceCtorEq] at same related
      · rw [run_cons_ok hb, run_cons_ok hb']
        exact ih later related
      · rw [run_cons_error hb, run_cons_error hb']
        exact ⟨same, related⟩

-----------------------------------------------------------------------------------------
-- Turns
-----------------------------------------------------------------------------------------

/-- Each turn of a successful loop is a successful call of the body. -/
theorem turns_ok {items : List α} {state final : σ}
    (h : run body items state = (.ok (), final)) {turn : Turn α σ}
    (member : turn ∈ turns body items state)
    : turn.item ∈ items ∧ body turn.item turn.before = (.ok (), turn.after) := by
  induction items generalizing state with
  | nil => simp at member
  | cons item rest ih =>
      obtain ⟨next, hb, h⟩ := run_cons_ok_iff.mp h
      rw [turns_cons_ok hb] at member
      rcases List.mem_cons.mp member with rfl | later
      · exact ⟨List.mem_cons_self, hb⟩
      · obtain ⟨inRest, call⟩ := ih h later
        exact ⟨List.mem_cons_of_mem item inRest, call⟩

/-- The first turn starts where the loop does. -/
theorem exists_first_turn (body : α → σ → Except ε Unit × σ) (item : α) (rest : List α)
    (state : σ)
    : ∃ turn ∈ turns body (item :: rest) state, turn.item = item ∧ turn.before = state := by
  rcases hb : body item state with ⟨_ | _, next⟩
  · exact ⟨⟨item, state, next⟩, by simp [turns, hb], rfl, rfl⟩
  · exact ⟨⟨item, state, next⟩, by simp [turns, hb], rfl, rfl⟩

/-- The turns of a list that starts with a successful one. -/
theorem turns_append_ok {left right : List α} {state middle : σ}
    (h : run body left state = (.ok (), middle))
    : turns body (left ++ right) state = turns body left state ++ turns body right middle := by
  induction left generalizing state with
  | nil =>
      simp only [run_nil, Prod.mk.injEq, true_and] at h
      rw [List.nil_append, turns_nil, List.nil_append, h]
  | cons item rest ih =>
      obtain ⟨next, hb, h⟩ := run_cons_ok_iff.mp h
      rw [List.cons_append, turns_cons_ok hb, turns_cons_ok hb, ih h, List.cons_append]

/-- The turns of a successful loop visit the items of the list in order. -/
theorem turns_items {items : List α} {state final : σ}
    (h : run body items state = (.ok (), final))
    : (turns body items state).map Turn.item = items := by
  induction items generalizing state with
  | nil => rfl
  | cons item rest ih =>
      obtain ⟨next, hb, h⟩ := run_cons_ok_iff.mp h
      rw [turns_cons_ok hb, List.map_cons, ih h]

/-- The turns of the items that are kept, where the other ones succeed without a change. -/
theorem turns_filter {items : List α} {state : σ} {keep : α → Bool}
    (skips : ∀ item ∈ items, keep item = false → ∀ s, body item s = (.ok (), s))
    : turns body (items.filter keep) state
      = (turns body items state).filter (fun turn => keep turn.item) := by
  induction items generalizing state with
  | nil => rfl
  | cons item rest ih =>
      have later := fun other member => skips other (List.mem_cons_of_mem item member)
      cases kept : keep item with
      | false =>
          rw [turns_cons_ok (skips item List.mem_cons_self kept state),
            List.filter_cons_of_neg (by simp [kept]), List.filter_cons_of_neg (by simp [kept]),
            ih later]
      | true =>
          rw [List.filter_cons_of_pos kept]
          rcases hb : body item state with ⟨_ | _, next⟩
          · simp only [turns, hb, List.filter_cons, kept, if_true, List.filter_nil]
          · simp only [turns, hb, List.filter_cons, kept, if_true, ih later]

/-- Loops whose bodies agree on the items have the same turns. -/
theorem turns_congr {body' : α → σ → Except ε Unit × σ} {items : List α}
    (same : ∀ item ∈ items, ∀ s, body item s = body' item s) (state : σ)
    : turns body items state = turns body' items state := by
  induction items generalizing state with
  | nil => rfl
  | cons item rest ih =>
      have later := ih (fun other member => same other (List.mem_cons_of_mem item member))
      simp only [turns, same item List.mem_cons_self, later]

/-- An invariant of the turns holds before each turn of the loop. -/
theorem turns_invariant {items : List α} {state : σ} (inv : σ → Prop)
    (step : ∀ item ∈ items, ∀ s, inv s → inv (body item s).2) (start : inv state)
    : ∀ turn ∈ turns body items state, inv turn.before := by
  induction items generalizing state with
  | nil => simp
  | cons item rest ih =>
      have later := fun other member => step other (List.mem_cons_of_mem item member)
      have first := step item (by simp) state start
      rcases hb : body item state with ⟨_ | _, next⟩
      · simp only [turns, hb, List.mem_singleton]
        rintro turn rfl
        exact start
      · simp only [turns, hb, List.mem_cons]
        rintro turn (rfl | member)
        · exact start
        · exact ih later (by simpa only [hb] using first) turn member

/-- A turn seen through a map of its states. -/
def Turn.map (f : σ → τ) (turn : Turn α σ) : Turn α τ :=
  { item := turn.item, before := f turn.before, after := f turn.after }

/-- The turns of a loop that another one simulates, seen through the simulation. -/
theorem turns_map {body' : α → τ → Except ε Unit × τ} (f : σ → τ) (inv : σ → Prop)
    {items : List α} {state : σ}
    (step
      : ∀ item ∈ items, ∀ s, inv s →
          body' item (f s) = ((body item s).1, f (body item s).2) ∧ inv (body item s).2)
    (start : inv state)
    : (turns body items state).map (Turn.map f) = turns body' items (f state) := by
  induction items generalizing state with
  | nil => rfl
  | cons item rest ih =>
      obtain ⟨simulated, kept⟩ := step item List.mem_cons_self state start
      have later := fun other member => step other (List.mem_cons_of_mem item member)
      rcases hb : body item state with ⟨_ | _, next⟩
      · rw [hb] at simulated
        simp only [turns, hb, simulated, List.map_cons, List.map_nil]
        rfl
      · rw [hb] at simulated kept
        simp only [turns, hb, simulated, List.map_cons, ← ih later kept]
        rfl

/-- Where each turn brings a law about exactly when it is a hit, and nothing takes it back, the
law holds after the loop exactly when it held before or some turn is a hit.
-/
theorem holds_iff_of_turns {items : List α} {state : σ} (inv law : σ → Prop)
    {hit : Turn α σ → Prop}
    (step
      : ∀ item ∈ items, ∀ s, inv s →
          inv (body item s).2
          ∧ (law (body item s).2 ↔ law s ∨ hit ⟨item, s, (body item s).2⟩))
    (start : inv state)
    : law (run body items state).2
      ↔ law state ∨ ∃ turn ∈ turns body items state, hit turn := by
  induction items generalizing state with
  | nil => simp
  | cons item rest ih =>
      obtain ⟨kept, here⟩ := step item List.mem_cons_self state start
      have later := fun other member => step other (List.mem_cons_of_mem item member)
      rcases body_cases body item state with ⟨next, hb⟩ | ⟨e, stop, hb⟩
      · rw [hb] at kept here
        rw [run_cons_ok hb, turns_cons_ok hb, ih later kept, here]
        simp only [List.mem_cons, exists_eq_or_imp, or_assoc]
      · rw [hb] at here
        rw [run_cons_error hb]
        simp only [turns, hb, List.mem_singleton, exists_eq_left, here]

/-- Pairs of turns at one place of two loops over one list have one item. -/
theorem item_eq_of_mem_zip {left : List (Turn α σ)} {right : List (Turn α τ)}
    (same : left.map Turn.item = right.map Turn.item)
    : ∀ pair ∈ left.zip right, pair.1.item = pair.2.item := by
  induction left generalizing right with
  | nil => simp
  | cons turn rest ih =>
      cases right with
      | nil => simp
      | cons other later =>
          obtain ⟨here, there⟩ := List.cons.inj same
          exact List.forall_mem_cons.mpr ⟨here, ih there⟩

/-- What every turn does to an order of the states, the loop does from each turn to its end. -/
theorem turns_le_end (le : σ → σ → Prop) (refl : ∀ s, le s s)
    (trans : ∀ r s t, le r s → le s t → le r t) {items : List α} {state : σ}
    (step : ∀ item ∈ items, ∀ s, le s (body item s).2)
    : le state (run body items state).2
      ∧ ∀ turn ∈ turns body items state, le turn.after (run body items state).2 := by
  induction items generalizing state with
  | nil => exact ⟨refl state, by simp⟩
  | cons item rest ih =>
      have here := step item List.mem_cons_self state
      have later := fun other member => step other (List.mem_cons_of_mem item member)
      rcases body_cases body item state with ⟨next, hb⟩ | ⟨e, stop, hb⟩
      · obtain ⟨reached, all⟩ := @ih next later
        rw [run_cons_ok hb, turns_cons_ok hb]
        rw [hb] at here
        exact ⟨trans _ _ _ here reached, List.forall_mem_cons.mpr ⟨reached, all⟩⟩
      · rw [hb] at here
        simp only [run, turns, hb, List.mem_singleton, forall_eq]
        exact ⟨here, refl stop⟩

/-- What the turns add to a measure and what they fall short of adds up over the loop, by
induction on the list.
-/
theorem measure_turns {items : List α} {state final : σ} (inv : σ → Prop) (measure : σ → Nat)
    (gain loss : Turn α σ → Bool)
    (step
      : ∀ turn ∈ turns body items state, inv turn.before
          → inv turn.after
            ∧ measure turn.after + (if loss turn then 1 else 0)
              = measure turn.before + (if gain turn then 1 else 0))
    (start : inv state) (h : run body items state = (.ok (), final))
    : inv final
      ∧ measure final + (turns body items state).countP loss
        = measure state + (turns body items state).countP gain := by
  induction items generalizing state with
  | nil =>
      obtain rfl := (Prod.mk.inj h).2
      exact ⟨start, rfl⟩
  | cons item rest ih =>
      obtain ⟨next, hb, h⟩ := run_cons_ok_iff.mp h
      rw [turns_cons_ok hb] at step ⊢
      obtain ⟨here, later⟩ := List.forall_mem_cons.mp step
      obtain ⟨kept, first⟩ := here start
      obtain ⟨atEnd, total⟩ := ih later kept h
      refine ⟨atEnd, ?_⟩
      simp only at first
      rw [List.countP_cons, List.countP_cons]
      omega

/-- What the turns add to a measure adds up to what the loop adds. -/
theorem turns_telescope {items : List α} {state final : σ} (measure : σ → Int)
    (h : run body items state = (.ok (), final))
    : measure final
      = measure state
        + ((turns body items state).map
            (fun turn => measure turn.after - measure turn.before)).sum := by
  induction items generalizing state with
  | nil =>
      obtain rfl := (Prod.mk.inj h).2
      exact (Int.add_zero _).symm
  | cons item rest ih =>
      obtain ⟨next, hb, h⟩ := run_cons_ok_iff.mp h
      rw [turns_cons_ok hb, List.map_cons, List.sum_cons, ih h]
      simp only
      omega

end Loop
