import Mathlib.Data.Finset.Card
import VeloChain.Consensus.Governance

/-! What the execution of a proposal finds and leaves.
Membership and size are checked when a proposal is made, votes are counted when one is cast,
and expiry is left to the sweeps. So the set keeps its bounds, an execution rests on a quorum
of the current set and a late vote is without effect exactly under conditions on the votes.
-/

namespace VeloChain

namespace ValidatorManager

variable {initial : List Address} {manager after : ValidatorManager}
  {proposal : ValidatorProposal} {proposalId : Nat} {op : GovernanceCall}
  {replies : List ValidatorResult}

-----------------------------------------------------------------------------------------
-- The operation that executes a proposal
-----------------------------------------------------------------------------------------

/-- The operation brings a proposal, as it stands then, to the quorum. -/
inductive Executes (manager : ValidatorManager) : GovernanceCall → Nat → ValidatorProposal → Prop
  | propose {proposer target : Address} {proposalType : ProposalType} {currentBlock : UInt64}
    {quorum : Nat} (admitted : manager.refusal proposer proposalType target = none)
    (threshold : manager.quorumThreshold = some quorum) (enough : quorum ≤ 1)
    : manager.Executes (.propose proposer proposalType target currentBlock)
        manager.nextProposalId
        (manager.openedProposal proposer proposalType target currentBlock)
  | vote {id : Nat} {voter : Address} {approve : Bool} {currentBlock : UInt64} {quorum : Nat}
    {proposal : ValidatorProposal} (accepts : manager.Accepts proposal id voter)
    (threshold : manager.quorumThreshold = some quorum)
    (enough : quorum ≤ (proposal.record voter approve).votesFor.length)
    : manager.Executes (.vote id voter approve currentBlock) id (proposal.record voter approve)

theorem Executes.of_vote {voter : Address} {approve : Bool} {currentBlock : UInt64} {id : Nat}
    (executes : manager.Executes (.vote proposalId voter approve currentBlock) id proposal)
    : ∃ cast quorum,
        manager.Accepts cast proposalId voter
        ∧ manager.quorumThreshold = some quorum
        ∧ quorum ≤ (cast.record voter approve).votesFor.length := by
  cases executes with
  | vote accepts threshold enough => exact ⟨_, _, accepts, threshold, enough⟩

/-- The change of one proposal has been made and recorded, and no other one. -/
structure Changed (manager after : ValidatorManager) (id : Nat) (proposal : ValidatorProposal)
    : Prop where
  set : after.validators = changed proposal.proposalType proposal.target manager.validators
  history
    : ∃ currentBlock,
        after.history
        = manager.history ++ [(currentBlock, proposal.proposalType, proposal.target)]
  stored : after.proposals.lookup id = some (proposal.withState .executed)
  executions
    : ∀ other,
        after.executedChange other
        = if other = id then some (proposal.proposalType, proposal.target)
          else manager.executedChange other

/-- No change has been made. -/
structure Unchanged (manager after : ValidatorManager) : Prop where
  set : after.validators = manager.validators
  history : after.history = manager.history
  executions : ∀ id, after.executedChange id = manager.executedChange id

theorem Unchanged.refl (manager : ValidatorManager) : manager.Unchanged manager :=
  ⟨rfl, rfl, fun _ => rfl⟩

/-- A check of a pending proposal executes it exactly when the quorum is met. -/
theorem changed_of_check {quorum : Nat} {currentBlock : UInt64} {reply : ValidatorResult}
    (found : manager.proposals.lookup proposalId = some proposal)
    (pending : proposal.state = .pending) (threshold : manager.quorumThreshold = some quorum)
    (returns : manager.checkAndExecute proposalId currentBlock = some (reply, after))
    : (quorum ≤ proposal.votesFor.length → manager.Changed after proposalId proposal)
      ∧ (¬ quorum ≤ proposal.votesFor.length → manager.Unchanged after) := by
  obtain ⟨quorum', other, same, sameFound, decided⟩ := checkAndExecute_cases returns
  obtain rfl : proposal = other := Option.some.inj (found.symm.trans sameFound)
  obtain rfl : quorum = quorum' := Option.some.inj (threshold.symm.trans same)
  rcases decided with ⟨enough, rfl⟩ | ⟨few, rest⟩
  · refine ⟨fun _ => ⟨rfl, ⟨currentBlock, rfl⟩, ?_, ?_⟩, fun not => absurd enough not⟩
    · rw [lookup_executed found, if_pos rfl]
    · exact executedChange_executed found currentBlock
  · refine ⟨fun enough => absurd enough (Nat.not_le.mpr few), fun _ => ?_⟩
    rcases rest with rfl | rfl
    · exact ⟨rfl, rfl,
        executedChange_updateProposal found pending ProposalState.noConfusion⟩
    · exact .refl _

/-- An operation makes the change of the proposal it executes, or no change. -/
theorem Accounted.call_cases (accounted : manager.Accounted initial)
    (returns : manager.call op = some (replies, after))
    : (∃ id proposal,
          manager.Executes op id proposal
          ∧ manager.executedChange id = none
          ∧ manager.Changed after id proposal)
      ∨ ((∀ id proposal, ¬ manager.Executes op id proposal) ∧ manager.Unchanged after) := by
  cases op with
  | propose proposer proposalType target currentBlock =>
      obtain ⟨out, proposed, same⟩ := Option.map_eq_some_iff.mp returns
      obtain rfl := (Prod.mk.inj same).2
      have executions := accounted.executedChange_openProposal proposer proposalType target
        currentBlock
      have isNew := executions manager.nextProposalId
      have found := lookup_openProposal proposer proposalType target currentBlock manager
        manager.nextProposalId
      rw [if_pos rfl] at found
      rcases propose_cases proposed
        with ⟨unchanged, refused⟩ | ⟨admitted, quorum, threshold, ⟨many, isOpen⟩ | ⟨few, check⟩⟩
      · refine Or.inr ⟨?_, unchanged ▸ .refl _⟩
        rintro id proposal ⟨admitted, _, _⟩
        exact refused admitted
      · refine Or.inr ⟨?_, isOpen ▸ ⟨rfl, rfl, executions⟩⟩
        rintro id proposal ⟨_, same, enough⟩
        obtain rfl := Option.some.inj (threshold.symm.trans same)
        omega
      · obtain ⟨set, history, stored, changes⟩ :=
          (changed_of_check found rfl threshold check).1 few
        refine Or.inl ⟨_, _, .propose admitted threshold few, ?_, set, history, stored, ?_⟩
        · rw [← isNew, executedChange_of_found found]
          rfl
        · intro other
          rw [changes, executions]
  | vote id voter approve currentBlock =>
      obtain ⟨out, voted, same⟩ := Option.map_eq_some_iff.mp returns
      obtain rfl := (Prod.mk.inj same).2
      rcases vote_cases voted with ⟨unchanged, refused⟩ | ⟨proposal, accepts, check⟩
      · refine Or.inr ⟨?_, unchanged ▸ .refl _⟩
        intro _ _ executes
        obtain ⟨other, _, accepts, _⟩ := executes.of_vote
        exact refused other accepts
      · obtain ⟨found, pending⟩ := accepts.recorded approve
        have unexecuted : (proposal.record voter approve).state ≠ .executed := by
          rw [pending]
          exact ProposalState.noConfusion
        have executions := executedChange_updateProposal accepts.found accepts.pending unexecuted
        obtain ⟨quorum, _, threshold, _⟩ := checkAndExecute_cases check
        obtain ⟨enough, few⟩ := changed_of_check found pending threshold check
        by_cases met : quorum ≤ (proposal.record voter approve).votesFor.length
        · obtain ⟨set, history, stored, changes⟩ := enough met
          refine Or.inl ⟨_, _, .vote accepts threshold met, ?_, ?_⟩
          · rw [executedChange_of_found accepts.found, accepts.pending]
            rfl
          · refine ⟨set, history, stored, ?_⟩
            intro other
            rw [changes, executions]
        · obtain ⟨set, history, changes⟩ := few met
          refine Or.inr ⟨?_, set, history, fun other => (changes other).trans (executions other)⟩
          intro _ _ executes
          obtain ⟨other, quorum', accepts', same, enough⟩ := executes.of_vote
          obtain rfl := Option.some.inj (accepts.found.symm.trans accepts'.found)
          obtain rfl := Option.some.inj (threshold.symm.trans same)
          exact met enough
  | expireProposals order currentBlock =>
      obtain rfl := (Prod.mk.inj (Option.some.inj returns)).2
      refine Or.inr ⟨?_, rfl, rfl, accounted.executedChange_expireProposals order currentBlock⟩
      rintro id proposal ⟨⟩

-----------------------------------------------------------------------------------------
-- The bounds of the set
-----------------------------------------------------------------------------------------

theorem config_of_check {currentBlock : UInt64} {reply : ValidatorResult}
    (returns : manager.checkAndExecute proposalId currentBlock = some (reply, after))
    : after.config = manager.config := by
  obtain ⟨_, _, _, _, ⟨_, rfl⟩ | ⟨_, rfl | rfl⟩⟩ := checkAndExecute_cases returns <;> rfl

theorem config_of_call (returns : call op manager = some (replies, after))
    : after.config = manager.config := by
  refine @rel_of_call manager after (fun before after => after.config = before.config) op replies
    rfl (fun _ _ _ left right => right.trans left) ?opens ?records ?checks ?sweeps returns
  case opens => exact fun _ _ _ _ => rfl
  case records => exact fun _ _ _ _ _ => rfl
  case checks => exact fun _ _ _ _ _ _ _ _ check => config_of_check check
  case sweeps => exact fun _ _ => rfl

/-- No validator is listed twice, and the set keeps to its minimum and its maximum. -/
structure WellFormed (manager : ValidatorManager) : Prop where
  nodup : manager.validators.Nodup
  minimum : manager.config.minValidators ≤ manager.validators.length
  maximum : manager.validators.length ≤ manager.config.maxValidators

/-- The set has room for the change: a new validator is not in it yet and does not exceed the
maximum, and the removal of a validator does not go below the minimum.
-/
def Admits (manager : ValidatorManager) (proposalType : ProposalType) (target : Address)
    : Prop :=
  match proposalType with
  | .add =>
      target ∉ manager.validators
      ∧ manager.validators.length < manager.config.maxValidators
  | .remove =>
      target ∈ manager.validators →
        manager.config.minValidators < manager.validators.length

/-- A vote that brings a proposal to the quorum does so while the set has room for its change.
-/
def Timely (manager : ValidatorManager) : GovernanceCall → Prop
  | .vote id voter approve _ =>
      ∀ proposal quorum, manager.Accepts proposal id voter
        → manager.quorumThreshold = some quorum
        → quorum ≤ (proposal.record voter approve).votesFor.length
        → manager.Admits proposal.proposalType proposal.target
  | _ => True

theorem length_filter_ne {validators : List Address} {target : Address}
    (nodup : validators.Nodup) (member : target ∈ validators)
    : (validators.filter (fun v => v ≠ target)).length + 1 = validators.length := by
  have erased : validators.filter (fun v => v ≠ target) = validators.erase target := by
    rw [nodup.erase_eq_filter]
    simp [bne, BEq.beq]
  rw [erased, List.length_erase_add_one member]

/-- A change keeps the bounds exactly when the set has room for it. -/
theorem WellFormed.changed_iff (wellFormed : manager.WellFormed)
    (config : after.config = manager.config) {proposalType : ProposalType} {target : Address}
    (set : after.validators = changed proposalType target manager.validators)
    : after.WellFormed ↔ manager.Admits proposalType target := by
  obtain ⟨nodup, minimum, maximum⟩ := wellFormed
  have unfolded
      : after.WellFormed
        ↔ (changed proposalType target manager.validators).Nodup
          ∧ manager.config.minValidators
            ≤ (changed proposalType target manager.validators).length
          ∧ (changed proposalType target manager.validators).length
            ≤ manager.config.maxValidators := by
    rw [← set, ← config]
    constructor
    · rintro ⟨nodup', minimum', maximum'⟩
      exact ⟨nodup', minimum', maximum'⟩
    · rintro ⟨nodup', minimum', maximum'⟩
      exact ⟨nodup', minimum', maximum'⟩
  rw [unfolded]
  cases proposalType with
  | add =>
      simp only [changed, Admits, List.length_append, List.length_singleton]
      rw [List.nodup_append_comm, List.singleton_append, List.nodup_cons]
      constructor
      · rintro ⟨⟨new, _⟩, _, room⟩
        exact ⟨new, room⟩
      · rintro ⟨new, room⟩
        exact ⟨⟨new, nodup⟩, by omega, room⟩
  | remove =>
      simp only [changed, Admits]
      by_cases member : target ∈ manager.validators
      · have length := length_filter_ne nodup member
        constructor
        · rintro ⟨_, above, _⟩ _
          omega
        · intro above
          have := above member
          exact ⟨nodup.filter _, by omega, by omega⟩
      · have same : manager.validators.filter (fun v => v ≠ target) = manager.validators := by
          apply List.filter_eq_self.mpr
          intro v isMember
          simpa using fun equal : v = target => member (equal ▸ isMember)
        rw [same]
        exact ⟨fun _ isMember => absurd isMember member, fun _ => ⟨nodup, minimum, maximum⟩⟩

/-- What a proposal is admitted for holds of the set it is made on. -/
theorem admits_of_refusal {proposer target : Address} {proposalType : ProposalType}
    (admitted : manager.refusal proposer proposalType target = none)
    : manager.Admits proposalType target := by
  unfold refusal at admitted
  split at admitted
  next => cases admitted
  next =>
    cases proposalType with
    | add =>
        simp only at admitted
        split at admitted
        next => cases admitted
        next new =>
          split at admitted
          next => cases admitted
          next room => exact ⟨new, Nat.lt_of_not_le room⟩
    | remove =>
        simp only at admitted
        split at admitted
        next => cases admitted
        next =>
          split at admitted
          next => cases admitted
          next above => exact fun _ => Nat.lt_of_not_le above

/-- One operation keeps the bounds exactly when it is timely. -/
theorem Accounted.wellFormed_iff (accounted : manager.Accounted initial)
    (wellFormed : manager.WellFormed) (returns : manager.call op = some (replies, after))
    : after.WellFormed ↔ manager.Timely op := by
  have config := config_of_call returns
  rcases accounted.call_cases returns with ⟨id, proposal, executes, _, done⟩ | ⟨none, unchanged⟩
  · rw [wellFormed.changed_iff config done.set]
    cases executes with
    | propose admitted _ _ => exact iff_of_true (admits_of_refusal admitted) trivial
    | @vote _ voter approve _ quorum cast accepts threshold enough =>
        have same : (cast.record voter approve).proposalType = cast.proposalType
            ∧ (cast.record voter approve).target = cast.target := by
          cases approve <;> exact ⟨rfl, rfl⟩
        rw [same.1, same.2]
        constructor
        · intro admits other _ accepts' _ _
          obtain rfl := Option.some.inj (accepts.found.symm.trans accepts'.found)
          exact admits
        · exact fun timely => timely cast quorum accepts threshold enough
  · have kept : after.WellFormed := by
      obtain ⟨nodup, minimum, maximum⟩ := wellFormed
      exact ⟨unchanged.set ▸ nodup, unchanged.set ▸ config ▸ minimum,
        unchanged.set ▸ config ▸ maximum⟩
    refine iff_of_true kept ?_
    cases op with
    | propose _ _ _ _ => trivial
    | vote id voter approve _ =>
        intro cast quorum accepts threshold enough
        exact absurd (.vote accepts threshold enough) (none id _)
    | expireProposals _ _ => trivial

/-- From a set within its bounds every run stays within them, and never empties the set,
exactly when no vote brings a proposal to the quorum that the set has no room for any more.
-/
theorem validators_wellFormed_iff (initial : List Address) (config : ValidatorManagerConfig)
    (ops : List GovernanceCall) (nodup : initial.Nodup)
    (minimum : config.minValidators ≤ initial.length)
    (maximum : initial.length ≤ config.maxValidators) (positive : 1 ≤ config.minValidators)
    : (∀ turn ∈ CallTrace.calls call ops (new initial config),
        turn.after.WellFormed ∧ turn.after.validators ≠ [])
      ↔ ∀ turn ∈ CallTrace.calls call ops (new initial config), turn.before.Timely turn.op := by
  apply CallTrace.kept_iff
    (fun manager : ValidatorManager => manager.Accounted initial ∧ manager.config = config)
    (fun manager : ValidatorManager => manager.WellFormed ∧ manager.validators ≠ [])
  · rintro op manager replies after ⟨accounted, same⟩ returns
    exact ⟨accounted.call returns, (config_of_call returns).trans same⟩
  · rintro turn ⟨accounted, same⟩ ⟨wellFormed, _⟩ returns
    rw [← accounted.wellFormed_iff wellFormed returns]
    refine ⟨And.left, fun kept => ⟨kept, ?_⟩⟩
    have above := kept.minimum
    rw [config_of_call returns, same] at above
    exact List.ne_nil_of_length_pos (by omega)
  · exact ⟨accounted_new initial config, rfl⟩
  · refine ⟨⟨nodup, minimum, maximum⟩, ?_⟩
    exact List.ne_nil_of_length_pos (Nat.lt_of_lt_of_le positive minimum)

/-- A validator proposes a fourth one, and another one votes for it. -/
def acceptedAddition : List GovernanceCall := [.propose 1 .add 4 1, .vote 1 2 true 2]

theorem validators_wellFormed_iff_addition
    : (∀ turn ∈ CallTrace.calls call acceptedAddition (new [1, 2, 3] .default),
        turn.after.WellFormed ∧ turn.after.validators ≠ [])
      ↔ ∀ turn ∈ CallTrace.calls call acceptedAddition (new [1, 2, 3] .default),
          turn.before.Timely turn.op :=
  validators_wellFormed_iff [1, 2, 3] .default acceptedAddition (by decide) (by decide)
    (by decide) (by decide)

-- The vote is accepted, and the fourth validator is in the set.
example
    : (CallTrace.final call acceptedAddition (new [1, 2, 3] .default)).validators
      = [1, 2, 3, 4] := by
  decide +kernel

/-- Two validators who vote to remove each other leave the set empty: after the first removal
one vote is a quorum, and the proposal of the removed validator has it, so even the vote
against it executes it.
-/
theorem validators_emptied
    : ¬ ∀ (initial : List Address) (config : ValidatorManagerConfig)
          (ops : List GovernanceCall),
          initial.Nodup → config.minValidators ≤ initial.length →
          initial.length ≤ config.maxValidators → 1 ≤ config.minValidators →
          ∀ turn ∈ CallTrace.calls call ops (new initial config),
            turn.after.WellFormed ∧ turn.after.validators ≠ [] := by
  intro law
  have kept := law [1, 2] .default
    [.propose 1 .remove 2 1, .propose 2 .remove 1 1, .vote 2 1 true 2, .vote 1 2 false 3]
    (by decide) (by decide) (by decide) (by decide)
  have emptied
      : ∃ turn ∈ CallTrace.calls call
          [.propose 1 .remove 2 1, .propose 2 .remove 1 1, .vote 2 1 true 2,
            .vote 1 2 false 3]
          (new [1, 2] .default),
          turn.after.validators = [] := by
    decide +kernel
  obtain ⟨turn, member, empty⟩ := emptied
  exact (kept turn member).2 empty

-----------------------------------------------------------------------------------------
-- The quorum behind an execution
-----------------------------------------------------------------------------------------

/-- Every proposal the call has executed has the votes of a quorum of the set before it. -/
def Quorate (turn : ReturnedCall ValidatorManager GovernanceCall (List ValidatorResult))
    : Prop :=
  ∀ id, turn.before.executedChange id = none → turn.after.executedChange id ≠ none →
    ∃ quorum proposal,
      turn.before.quorumThreshold = some quorum
      ∧ turn.after.proposals.lookup id = some proposal
      ∧ quorum ≤ (proposal.votesFor.toFinset ∩ turn.before.validators.toFinset).card

/-- The recorded votes for a proposal whose voters are no validators any more. -/
def staleVotes (manager : ValidatorManager) (proposal : ValidatorProposal) : Nat :=
  proposal.votesFor.countP (fun voter => voter ∉ manager.validators)

/-- A vote that finds the threshold met finds it met by more than the stale votes make up. -/
def Current (manager : ValidatorManager) : GovernanceCall → Prop
  | .vote id voter approve _ =>
      ∀ proposal quorum, manager.Accepts proposal id voter
        → manager.quorumThreshold = some quorum
        → quorum ≤ (proposal.record voter approve).votesFor.length
        → quorum + manager.staleVotes proposal
          ≤ (proposal.record voter approve).votesFor.length
  | _ => True

/-- The voters who are validators are all of them but those of the stale votes. -/
theorem card_current_add_staleVotes (nodup : proposal.votesFor.Nodup)
    : (proposal.votesFor.toFinset ∩ manager.validators.toFinset).card
        + manager.staleVotes proposal
      = proposal.votesFor.length := by
  have current
      : proposal.votesFor.toFinset ∩ manager.validators.toFinset
        = (proposal.votesFor.filter (fun voter => voter ∈ manager.validators)).toFinset := by
    ext voter
    simp
  rw [current, List.toFinset_card_of_nodup (nodup.filter _), ← List.countP_eq_length_filter,
    staleVotes, List.length_eq_countP_add_countP (fun voter => voter ∈ manager.validators)]
  simp

/-- The vote of a validator is not stale. -/
theorem staleVotes_record {voter : Address} (member : manager.IsValidator voter)
    (approve : Bool)
    : manager.staleVotes (proposal.record voter approve) = manager.staleVotes proposal := by
  cases approve with
  | false => rfl
  | true =>
      change (proposal.votesFor ++ [voter]).countP _ = _
      rw [List.countP_append, List.countP_singleton]
      simp only [IsValidator] at member
      simp [member, staleVotes]

/-- An execution rests on a quorum of the set exactly when the vote is current. -/
theorem Accounted.quorate_iff (accounted : manager.Accounted initial)
    (returns : manager.call op = some (replies, after))
    : Quorate ⟨manager, op, replies, after⟩ ↔ manager.Current op := by
  rcases accounted.call_cases returns with ⟨id, proposal, executes, new, done⟩ | ⟨none, unchanged⟩
  · have only {quorum : Nat} (threshold : manager.quorumThreshold = some quorum)
        : Quorate ⟨manager, op, replies, after⟩
          ↔ quorum ≤ (proposal.votesFor.toFinset ∩ manager.validators.toFinset).card := by
      constructor
      · intro quorate
        have isDone : after.executedChange id ≠ none := by
          rw [done.executions, if_pos rfl]
          exact Option.some_ne_none _
        obtain ⟨quorum', stored, same, found, enough⟩ := quorate id new isDone
        obtain rfl := Option.some.inj (threshold.symm.trans same)
        obtain rfl := Option.some.inj (done.stored.symm.trans found)
        exact enough
      · intro enough other before isDone
        simp only at before isDone
        rw [done.executions] at isDone
        split at isDone
        next same =>
          subst same
          exact ⟨quorum, _, threshold, done.stored, enough⟩
        next => exact absurd before isDone
    cases executes with
    | @propose proposer target _ _ quorum admitted threshold enough =>
        refine iff_of_true ((only threshold).mpr ?_) trivial
        have member : proposer ∈ manager.validators := by
          by_contra outsider
          simp [refusal, IsValidator, outsider] at admitted
        change quorum ≤ ([proposer].toFinset ∩ manager.validators.toFinset).card
        have same : [proposer].toFinset ∩ manager.validators.toFinset = {proposer} := by
          ext voter
          simp only [List.mem_toFinset, Finset.mem_inter, List.mem_singleton,
            Finset.mem_singleton, and_iff_left_iff_imp]
          rintro rfl
          exact member
        rwa [same, Finset.card_singleton]
    | @vote _ voter approve _ quorum cast accepts threshold enough =>
        have ballots := (accounted.record accepts approve).ballots id _
          (accepts.recorded approve).1
        have counted := @card_current_add_staleVotes manager _ ballots.of_append_left
        rw [staleVotes_record accepts.validator] at counted
        rw [only threshold]
        constructor
        · intro current other quorum' accepts' same _
          obtain rfl := Option.some.inj (accepts.found.symm.trans accepts'.found)
          obtain rfl := Option.some.inj (threshold.symm.trans same)
          omega
        · intro current
          have := current cast quorum accepts threshold enough
          omega
  · have quorate : Quorate ⟨manager, op, replies, after⟩ := by
      intro id before isDone
      exact absurd ((unchanged.executions id).trans before) isDone
    refine iff_of_true quorate ?_
    cases op with
    | propose _ _ _ _ => trivial
    | vote id voter approve _ =>
        intro cast quorum accepts threshold enough
        exact absurd (.vote accepts threshold enough) (none id _)
    | expireProposals _ _ => trivial

/-- In every run all executions rest on a quorum of the set they change exactly when no vote
finds a threshold met that only the votes of former validators make up.
-/
theorem executions_quorate_iff (initial : List Address) (config : ValidatorManagerConfig)
    (ops : List GovernanceCall)
    : (∀ turn ∈ CallTrace.calls call ops (new initial config), Quorate turn)
      ↔ ∀ turn ∈ CallTrace.calls call ops (new initial config),
          turn.before.Current turn.op :=
  CallTrace.forall_calls_iff (Accounted initial)
    (fun _ _ _ _ accounted returns => accounted.call returns)
    (fun _ accounted returns => accounted.quorate_iff returns)
    (accounted_new initial config)

/-- The vote of a removed validator is a quorum of the one who is left, whose vote against
the proposal executes it.
-/
theorem executions_not_quorate
    : ¬ ∀ (initial : List Address) (config : ValidatorManagerConfig)
          (ops : List GovernanceCall),
          initial.Nodup →
          ∀ turn ∈ CallTrace.calls call ops (new initial config), Quorate turn := by
  intro law
  have kept := law [1, 2] .default
    [.propose 1 .remove 2 1, .propose 2 .remove 1 1, .vote 2 1 true 2, .vote 1 2 false 3]
    (by decide)
  have unsupported
      : ∃ turn ∈ CallTrace.calls call
          [.propose 1 .remove 2 1, .propose 2 .remove 1 1, .vote 2 1 true 2,
            .vote 1 2 false 3]
          (new [1, 2] .default),
          turn.before.executedChange 1 = none
          ∧ turn.after.executedChange 1 ≠ none
          ∧ turn.before.quorumThreshold = some 1
          ∧ (turn.after.proposals.lookup 1).map ValidatorProposal.votesFor = some [1]
          ∧ turn.before.validators = [2] := by
    decide +kernel
  obtain ⟨turn, member, before, isDone, threshold, votes, set⟩ := unsupported
  obtain ⟨quorum, proposal, same, found, enough⟩ := kept turn member 1 before isDone
  rw [found, Option.map_some, Option.some.injEq] at votes
  obtain rfl := Option.some.inj (threshold.symm.trans same)
  rw [votes, set] at enough
  exact absurd enough (by decide)

-----------------------------------------------------------------------------------------
-- Late votes
-----------------------------------------------------------------------------------------

/-- A vote at or past the last block of its proposal has no effect. -/
def LateVoteIdle (turn : ReturnedCall ValidatorManager GovernanceCall (List ValidatorResult))
    : Prop :=
  match turn.op with
  | .vote id _ _ currentBlock =>
      ∀ proposal, turn.before.proposals.lookup id = some proposal →
        proposal.expiresAt ≤ currentBlock →
        turn.after.validators = turn.before.validators
        ∧ turn.after.history = turn.before.history
        ∧ (turn.before.executedChange id = none → turn.after.executedChange id = none)
  | _ => True

/-- A late vote that is accepted leaves the proposal short of the quorum. -/
def LateVoteShort (manager : ValidatorManager) : GovernanceCall → Prop
  | .vote id voter approve currentBlock =>
      ∀ proposal quorum, manager.Accepts proposal id voter
        → proposal.expiresAt ≤ currentBlock
        → manager.quorumThreshold = some quorum
        → (proposal.record voter approve).votesFor.length < quorum
  | _ => True

theorem Accounted.lateVoteIdle_iff (accounted : manager.Accounted initial)
    (returns : manager.call op = some (replies, after))
    : LateVoteIdle ⟨manager, op, replies, after⟩ ↔ manager.LateVoteShort op := by
  cases op with
  | propose _ _ _ _ => exact Iff.rfl
  | expireProposals _ _ => exact Iff.rfl
  | vote id voter approve currentBlock =>
      rcases accounted.call_cases returns
        with ⟨other, proposal, executes, _, done⟩ | ⟨none, unchanged⟩
      · cases executes with
        | @vote _ _ _ _ quorum cast accepts threshold enough =>
            constructor
            · intro idle other _ accepts' late _
              obtain rfl := Option.some.inj (accepts.found.symm.trans accepts'.found)
              obtain ⟨block, grown⟩ := done.history
              have same := (idle cast accepts.found late).2.1
              simp [grown] at same
            · intro short other found late
              obtain rfl := Option.some.inj (accepts.found.symm.trans found)
              exact absurd enough (Nat.not_le.mpr (short cast quorum accepts late threshold))
      · have idle : LateVoteIdle ⟨manager, .vote id voter approve currentBlock, replies, after⟩ :=
          fun _ _ _ => ⟨unchanged.set, unchanged.history, (unchanged.executions id).trans⟩
        refine iff_of_true idle ?_
        intro cast quorum accepts _ threshold
        by_contra enough
        exact none id _ (.vote accepts threshold (Nat.le_of_not_lt enough))

/-- In every run the late votes have no effect exactly when each of them that is accepted
leaves its proposal short of the quorum.
-/
theorem lateVotes_idle_iff (initial : List Address) (config : ValidatorManagerConfig)
    (ops : List GovernanceCall)
    : (∀ turn ∈ CallTrace.calls call ops (new initial config), LateVoteIdle turn)
      ↔ ∀ turn ∈ CallTrace.calls call ops (new initial config),
          turn.before.LateVoteShort turn.op :=
  CallTrace.forall_calls_iff (Accounted initial)
    (fun _ _ _ _ accounted returns => accounted.call returns)
    (fun _ accounted returns => accounted.lateVoteIdle_iff returns)
    (accounted_new initial config)

/-- After a sweep no vote is accepted on a proposal that was due. -/
theorem Accounted.not_accepts_of_swept (accounted : manager.Accounted initial)
    (order : IterationOrder Nat ValidatorProposal) {currentBlock : UInt64} {voter : Address}
    (due : proposal.expiresAt ≤ currentBlock)
    : ¬ (manager.expireProposals order currentBlock).2.Accepts proposal proposalId voter := by
  intro accepts
  have found := accepts.found
  rw [accounted.lookup_expireProposals] at found
  obtain ⟨before, _, same⟩ := Option.map_eq_some_iff.mp found
  have pending := accepts.pending
  split at same
  next => simp [← same, ValidatorProposal.withState] at pending
  next alive =>
    subst same
    exact alive ⟨pending, due⟩

/-- A proposal that no sweep has expired is executed by a vote at its last block. -/
theorem lateVotes_not_idle
    : ¬ ∀ (initial : List Address) (config : ValidatorManagerConfig)
          (ops : List GovernanceCall),
          (ops.map GovernanceCall.currentBlock).Pairwise (· ≤ ·) →
          ∀ turn ∈ CallTrace.calls call ops (new initial config), LateVoteIdle turn := by
  intro law
  have idle := law [1, 2, 3] .default [.propose 1 .add 4 1, .vote 1 2 true 1001] (by decide)
  have opens : call (.propose 1 .add 4 1) (new [1, 2, 3] .default)
      = some ([.proposalCreated 1], (new [1, 2, 3] .default).openProposal 1 .add 4 1) := rfl
  have adds
      : (call (.vote 1 2 true 1001)
          ((new [1, 2, 3] .default).openProposal 1 .add 4 1)).map (·.2.validators)
        = some [1, 2, 3, 4] := by
    decide +kernel
  obtain ⟨⟨replies, after⟩, votes, added⟩ := Option.map_eq_some_iff.mp adds
  rw [CallTrace.calls_cons_some opens, CallTrace.calls_cons_some votes] at idle
  have late := idle _ (List.mem_cons_of_mem _ List.mem_cons_self)
    ((new [1, 2, 3] .default).openedProposal 1 .add 4 1) (lookup_openProposal 1 .add 4 1 _ 1)
    (by decide)
  have same : ([1, 2, 3, 4] : List Address) = [1, 2, 3] := added.symm.trans late.1
  exact absurd same (by decide)

end ValidatorManager

end VeloChain
