import Mathlib.Data.List.Basic
import Mathlib.Logic.Function.Basic
import Mathlib.Logic.Relation

/-! Parties that publish messages over a medium that guarantees nothing.
Whatever was published can be delivered to every party, any number of times, in any order or
never. A statement about every list of turns is therefore one about every loss, repetition and
reordering of messages.

A law of such a network may speak of knowledge that grows with the run, as the list of what was
decided so far. Each party guarantees how its own turns let the knowledge grow, and relies on
the guarantees of the others.
-/

namespace Gossip

variable {ι σ α ρ μ : Type*}

/-- The states of the parties, and everything that was published. -/
structure Net (ι σ μ : Type*) where
  parties : ι → σ
  published : List μ

/-- What the parties do by themselves, and what they do with a message that reaches them. Either
may publish messages. What else a reception depends on comes with it.
-/
structure Protocol (ι σ α ρ μ : Type*) where
  act : ι → α → σ → List μ × σ
  receive : ι → ρ → μ → σ → List μ × σ

/-- A turn of a party, by itself or with the message that was published at an index. -/
inductive Turn (ι α ρ : Type*)
  | act (party : ι) (action : α)
  | deliver (party : ι) (index : Nat) (how : ρ)

variable [DecidableEq ι]

/-- A party has moved to a new state and published messages. -/
def Net.move (net : Net ι σ μ) (party : ι) (moved : List μ × σ) : Net ι σ μ :=
  { parties := Function.update net.parties party moved.2
    published := net.published ++ moved.1 }

theorem Net.move_self (net : Net ι σ μ) (party : ι) (moved : List μ × σ)
    : (net.move party moved).parties party = moved.2 :=
  Function.update_self _ _ _

theorem Net.move_other (net : Net ι σ μ) {party other : ι} (ne : other ≠ party)
    (moved : List μ × σ)
    : (net.move party moved).parties other = net.parties other :=
  Function.update_of_ne ne _ _

namespace Protocol

variable (protocol : Protocol ι σ α ρ μ)

/-- One turn. Nothing happens where no message was published at the index. -/
def step (net : Net ι σ μ) : Turn ι α ρ → Net ι σ μ
  | .act party action => net.move party (protocol.act party action (net.parties party))
  | .deliver party index how =>
      match net.published[index]? with
      | none => net
      | some message =>
          net.move party (protocol.receive party how message (net.parties party))

/-- The network after a list of turns. -/
def run (turns : List (Turn ι α ρ)) (net : Net ι σ μ) : Net ι σ μ :=
  turns.foldl protocol.step net

-----------------------------------------------------------------------------------------
-- What was published stays published
-----------------------------------------------------------------------------------------

theorem published_step (net : Net ι σ μ) (turn : Turn ι α ρ)
    : net.published ⊆ (protocol.step net turn).published := by
  unfold step
  split
  next => exact List.subset_append_left _ _
  next =>
    split
    next => exact List.Subset.refl _
    next => exact List.subset_append_left _ _

theorem published_run (turns : List (Turn ι α ρ)) (net : Net ι σ μ)
    : net.published ⊆ (protocol.run turns net).published := by
  induction turns generalizing net with
  | nil => exact List.Subset.refl _
  | cons turn rest ih => exact List.Subset.trans (protocol.published_step net turn) (ih _)

-----------------------------------------------------------------------------------------
-- Relying on what the others guarantee
-----------------------------------------------------------------------------------------

variable {κ : Type*}

/-- The turns of the parties keep a law: what holds of each party, and what holds of messages,
given the knowledge so far. A turn of a party lets the knowledge grow as the party guarantees,
under which the laws of the others and of the messages last. Only actions that `may` be taken
and messages that are `among` those of the run are considered.
-/
structure Upholds (may : ι → α → Prop) (among : μ → Prop) (party : κ → ι → σ → Prop)
    (message : κ → μ → Prop) (guarantee : ι → κ → κ → Prop) : Prop where
  act
    : ∀ k i action state, may i action → party k i state →
        (∀ m ∈ (protocol.act i action state).1, among m) →
        ∃ k', guarantee i k k' ∧ party k' i (protocol.act i action state).2
          ∧ ∀ m ∈ (protocol.act i action state).1, message k' m
  receive
    : ∀ k i how m state, among m → message k m → party k i state →
        (∀ m' ∈ (protocol.receive i how m state).1, among m') →
        ∃ k', guarantee i k k' ∧ party k' i (protocol.receive i how m state).2
          ∧ ∀ m' ∈ (protocol.receive i how m state).1, message k' m'
  others
    : ∀ k k' i j state, guarantee i k k' → j ≠ i → party k j state → party k' j state
  lasts : ∀ k k' i m, guarantee i k k' → message k m → message k' m

variable {protocol}
variable {may : ι → α → Prop} {among : μ → Prop} {party : κ → ι → σ → Prop}
  {message : κ → μ → Prop} {guarantee : ι → κ → κ → Prop}

/-- The law of a network, given the knowledge so far. -/
def Lawful (party : κ → ι → σ → Prop) (message : κ → μ → Prop) (k : κ) (net : Net ι σ μ)
    : Prop :=
  (∀ i, party k i (net.parties i)) ∧ ∀ m ∈ net.published, message k m

/-- A party that has moved keeps the law, and so do the others that it does not touch. -/
theorem Upholds.move (upholds : protocol.Upholds may among party message guarantee) {k k' : κ}
    {net : Net ι σ μ} (lawful : Lawful party message k net) {i : ι} {moved : List μ × σ}
    (grows : guarantee i k k') (own : party k' i moved.2) (new : ∀ m ∈ moved.1, message k' m)
    : Lawful party message k' (net.move i moved) := by
  refine ⟨fun j => ?_, fun m member => ?_⟩
  · by_cases same : j = i
    · subst same
      rwa [Net.move_self]
    · rw [net.move_other same]
      exact upholds.others k k' i j _ grows same (lawful.1 j)
  · rcases List.mem_append.mp member with before | isNew
    · exact upholds.lasts k k' i m grows (lawful.2 m before)
    · exact new m isNew

theorem Upholds.step (upholds : protocol.Upholds may among party message guarantee) {k : κ}
    {net : Net ι σ μ} (lawful : Lawful party message k net) {turn : Turn ι α ρ}
    (allowed : ∀ i action, turn = .act i action → may i action)
    (listed : ∀ m ∈ (protocol.step net turn).published, among m)
    : ∃ k', (k' = k ∨ ∃ i, guarantee i k k')
        ∧ Lawful party message k' (protocol.step net turn) := by
  cases turn with
  | act i action =>
      obtain ⟨k', grows, own, new⟩ :=
        upholds.act k i action _ (allowed i action rfl) (lawful.1 i)
          (fun m member => listed m (List.mem_append_right _ member))
      exact ⟨k', Or.inr ⟨i, grows⟩, upholds.move lawful grows own new⟩
  | deliver i index how =>
      simp only [Protocol.step] at listed ⊢
      split at listed
      next => exact ⟨k, Or.inl rfl, lawful⟩
      next m found =>
        have member := List.mem_of_getElem? found
        obtain ⟨k', grows, own, new⟩ :=
          upholds.receive k i how m _ (listed m (List.mem_append_left _ member))
            (lawful.2 m member) (lawful.1 i)
            (fun m' isNew => listed m' (List.mem_append_right _ isNew))
        exact ⟨k', Or.inr ⟨i, grows⟩, upholds.move lawful grows own new⟩

/-- What every turn upholds holds after every list of turns, by induction on the list. -/
theorem Upholds.run (upholds : protocol.Upholds may among party message guarantee)
    {turns : List (Turn ι α ρ)} {k : κ} {net : Net ι σ μ}
    (lawful : Lawful party message k net)
    (allowed : ∀ i action, .act i action ∈ turns → may i action)
    (listed : ∀ m ∈ (protocol.run turns net).published, among m)
    : ∃ k', Relation.ReflTransGen (fun k k' => ∃ i, guarantee i k k') k k'
        ∧ Lawful party message k' (protocol.run turns net) := by
  induction turns generalizing k net with
  | nil => exact ⟨k, .refl, lawful⟩
  | cons turn rest ih =>
      have now (i : ι) (action : α) (same : turn = .act i action) : may i action :=
        allowed i action (same ▸ List.mem_cons_self)
      obtain ⟨k', first, stepped⟩ :=
        upholds.step lawful now (fun m member => listed m (protocol.published_run rest _ member))
      obtain ⟨k'', later, final⟩ :=
        ih stepped (fun i action member => allowed i action (List.mem_cons_of_mem _ member))
          listed
      refine ⟨k'', ?_, final⟩
      rcases first with rfl | grows
      · exact later
      · exact .head grows later

end Protocol

end Gossip
