import VeloChain.Lib.CallTrace
import VeloChain.Lib.HashMapOrder
import VeloChain.Primitives.Types

/-! The validator set under governance: proposals, votes and expiry.
A call that panics does not return. Proposals are never removed, so their ids count them and
are natural numbers; block numbers and the quorum are computed on 64-bit words.
-/

namespace VeloChain

/-- Type of validator change proposal. -/
inductive ProposalType
  | add
  | remove
  deriving DecidableEq

/-- State of a proposal. -/
inductive ProposalState
  | pending
  | approved
  | rejected
  | executed
  | expired
  deriving DecidableEq

/-- A proposal to change the validator set. -/
structure ValidatorProposal where
  id : Nat
  proposalType : ProposalType
  target : Address
  proposer : Address
  votesFor : List Address
  votesAgainst : List Address
  proposedAt : UInt64
  expiresAt : UInt64
  state : ProposalState
  deriving DecidableEq

/-- Validator management errors. -/
inductive ValidatorError
  | notValidator
  | alreadyValidator
  | notInSet
  | cannotRemoveLast
  | alreadyVoted
  | proposalNotFound
  | proposalNotPending
  | voterNotValidator
  deriving DecidableEq

/-- Result of a validator management operation. -/
inductive ValidatorResult
  | proposalCreated (id : Nat)
  | voteRecorded (proposalId votesFor votesAgainst : Nat)
  | approved (id : Nat)
  | rejected (id : Nat)
  | validatorAdded (target : Address)
  | validatorRemoved (target : Address)
  | expired (id : Nat)
  | error (e : ValidatorError)
  deriving DecidableEq

/-- Configuration for validator management. -/
structure ValidatorManagerConfig where
  proposalTtlBlocks : UInt64
  quorumNumerator : UInt64
  quorumDenominator : UInt64
  minValidators : Nat
  maxValidators : Nat

/-- One thousand blocks, two thirds of the votes, between one and twenty-one validators. -/
def ValidatorManagerConfig.default : ValidatorManagerConfig where
  proposalTtlBlocks := 1000
  quorumNumerator := 2
  quorumDenominator := 3
  minValidators := 1
  maxValidators := 21

/-- The validator set, the proposals by id, and the changes made so far. -/
structure ValidatorManager where
  validators : List Address
  proposals : FinMap Nat ValidatorProposal
  nextProposalId : Nat
  config : ValidatorManagerConfig
  history : List (UInt64 × ProposalType × Address)

/-- Division rounded up; a zero divisor panics. -/
def divCeil (dividend divisor : UInt64) : Option UInt64 :=
  if divisor = 0 then none
  else if dividend % divisor = 0 then some (dividend / divisor)
  else some (dividend / divisor + 1)

namespace ValidatorProposal

/-- Whether an address has voted. -/
def HasVoted (proposal : ValidatorProposal) (voter : Address) : Prop :=
  voter ∈ proposal.votesFor ∨ voter ∈ proposal.votesAgainst

instance (proposal : ValidatorProposal) (voter : Address) : Decidable (proposal.HasVoted voter) :=
  inferInstanceAs (Decidable (_ ∨ _))

def record (voter : Address) (approve : Bool) (proposal : ValidatorProposal)
    : ValidatorProposal :=
  if approve then { proposal with votesFor := proposal.votesFor ++ [voter] }
  else { proposal with votesAgainst := proposal.votesAgainst ++ [voter] }

def withState (state : ProposalState) (proposal : ValidatorProposal) : ValidatorProposal :=
  { proposal with state }

theorem state_record (voter : Address) (approve : Bool) (proposal : ValidatorProposal)
    : (proposal.record voter approve).state = proposal.state := by
  cases approve <;> rfl

end ValidatorProposal

namespace ValidatorManager

/-- Create a new validator manager with an initial validator set. -/
def new (initialValidators : List Address) (config : ValidatorManagerConfig)
    : ValidatorManager :=
  { validators := initialValidators
    proposals := ∅
    nextProposalId := 1
    config
    history := [] }

/-- Check if an address is a current validator. -/
def IsValidator (manager : ValidatorManager) (address : Address) : Prop :=
  address ∈ manager.validators

instance (manager : ValidatorManager) (address : Address)
    : Decidable (manager.IsValidator address) :=
  inferInstanceAs (Decidable (_ ∈ _))

/-- Calculate the required number of votes for quorum. -/
def quorumThreshold (manager : ValidatorManager) : Option Nat :=
  let total := UInt64.ofNat manager.validators.length
  (divCeil (total * manager.config.quorumNumerator) manager.config.quorumDenominator).map
    UInt64.toNat

/-- Update the proposal under an id in place. -/
def updateProposal (id : Nat) (f : ValidatorProposal → ValidatorProposal)
    (manager : ValidatorManager) : ValidatorManager :=
  { manager with proposals := FinMap.modify id f manager.proposals }

/-- Check if a proposal has reached quorum and execute if so. -/
def checkAndExecute (proposalId : Nat) (currentBlock : UInt64) (manager : ValidatorManager)
    : Option (ValidatorResult × ValidatorManager) := do
  let quorum ← manager.quorumThreshold
  let proposal ← manager.proposals.lookup proposalId
  if quorum ≤ proposal.votesFor.length then
    let approved := manager.updateProposal proposalId (·.withState .approved)
    match proposal.proposalType with
    | .add =>
        let changed :=
          { approved with
            validators := approved.validators ++ [proposal.target]
            history := approved.history ++ [(currentBlock, ProposalType.add, proposal.target)] }
        some (.validatorAdded proposal.target,
          changed.updateProposal proposalId (·.withState .executed))
    | .remove =>
        let changed :=
          { approved with
            validators := approved.validators.filter (fun v => v ≠ proposal.target)
            history :=
              approved.history ++ [(currentBlock, ProposalType.remove, proposal.target)] }
        some (.validatorRemoved proposal.target,
          changed.updateProposal proposalId (·.withState .executed))
  else if quorum ≤ proposal.votesAgainst.length then
    some (.rejected proposalId, manager.updateProposal proposalId (·.withState .rejected))
  else
    some (.voteRecorded proposalId proposal.votesFor.length proposal.votesAgainst.length,
      manager)

/-- What a proposal is refused for. -/
def refusal (proposer : Address) (proposalType : ProposalType) (target : Address)
    (manager : ValidatorManager) : Option ValidatorError :=
  if ¬ manager.IsValidator proposer then some .notValidator
  else
    match proposalType with
    | .add =>
        if manager.IsValidator target then some .alreadyValidator
        else if manager.config.maxValidators ≤ manager.validators.length then
          some .cannotRemoveLast
        else none
    | .remove =>
        if ¬ manager.IsValidator target then some .notInSet
        else if manager.validators.length ≤ manager.config.minValidators then
          some .cannotRemoveLast
        else none

/-- The manager with a new pending proposal; its proposer votes for it. -/
def openProposal (proposer : Address) (proposalType : ProposalType) (target : Address)
    (currentBlock : UInt64) (manager : ValidatorManager) : ValidatorManager :=
  { manager with
    nextProposalId := manager.nextProposalId + 1
    proposals :=
      manager.proposals.insert manager.nextProposalId
        { id := manager.nextProposalId
          proposalType
          target
          proposer
          votesFor := [proposer]
          votesAgainst := []
          proposedAt := currentBlock
          expiresAt := currentBlock + manager.config.proposalTtlBlocks
          state := .pending } }

/-- Create a proposal to add or remove a validator. -/
def propose (proposer : Address) (proposalType : ProposalType) (target : Address)
    (currentBlock : UInt64) (manager : ValidatorManager)
    : Option (ValidatorResult × ValidatorManager) :=
  match manager.refusal proposer proposalType target with
  | some e => some (.error e, manager)
  | none => do
      let id := manager.nextProposalId
      let opened := manager.openProposal proposer proposalType target currentBlock
      let quorum ← opened.quorumThreshold
      if quorum ≤ 1 then opened.checkAndExecute id currentBlock
      else some (.proposalCreated id, opened)

/-- Vote on a proposal. -/
def vote (proposalId : Nat) (voter : Address) (approve : Bool) (currentBlock : UInt64)
    (manager : ValidatorManager) : Option (ValidatorResult × ValidatorManager) :=
  if ¬ manager.IsValidator voter then some (.error .voterNotValidator, manager)
  else
    match manager.proposals.lookup proposalId with
    | none => some (.error .proposalNotFound, manager)
    | some proposal =>
        if proposal.state ≠ .pending then some (.error .proposalNotPending, manager)
        else if proposal.HasVoted voter then some (.error .alreadyVoted, manager)
        else
          (manager.updateProposal proposalId (·.record voter approve)).checkAndExecute
            proposalId currentBlock

/-- The ids of the pending proposals that have passed their last block. -/
def expiredIds (order : IterationOrder Nat ValidatorProposal) (currentBlock : UInt64)
    (manager : ValidatorManager) : List Nat :=
  (((order.keys manager.proposals).filterMap manager.proposals.lookup).filter
    (fun proposal => proposal.state = .pending ∧ proposal.expiresAt ≤ currentBlock)).map
    ValidatorProposal.id

/-- Expire old proposals that have passed their TTL. -/
def expireProposals (order : IterationOrder Nat ValidatorProposal) (currentBlock : UInt64)
    (manager : ValidatorManager) : List ValidatorResult × ValidatorManager :=
  let ids := manager.expiredIds order currentBlock
  ((ids.filter (· ∈ manager.proposals)).map .expired,
    { manager with
      proposals := FinMap.modifyAll ids (·.withState .expired) manager.proposals })

end ValidatorManager

/-- The operations that change a validator manager. A sweep walks the proposals in some order. -/
inductive GovernanceCall
  | propose (proposer : Address) (proposalType : ProposalType) (target : Address)
    (currentBlock : UInt64)
  | vote (proposalId : Nat) (voter : Address) (approve : Bool) (currentBlock : UInt64)
  | expireProposals (order : IterationOrder Nat ValidatorProposal) (currentBlock : UInt64)

def GovernanceCall.currentBlock : GovernanceCall → UInt64
  | .propose _ _ _ currentBlock => currentBlock
  | .vote _ _ _ currentBlock => currentBlock
  | .expireProposals _ currentBlock => currentBlock

namespace ValidatorManager

/-- One operation, with its results. -/
def call (op : GovernanceCall) (manager : ValidatorManager)
    : Option (List ValidatorResult × ValidatorManager) :=
  match op with
  | .propose proposer proposalType target currentBlock =>
      (manager.propose proposer proposalType target currentBlock).map
        (fun out => ([out.1], out.2))
  | .vote proposalId voter approve currentBlock =>
      (manager.vote proposalId voter approve currentBlock).map (fun out => ([out.1], out.2))
  | .expireProposals order currentBlock =>
      some (manager.expireProposals order currentBlock)

-----------------------------------------------------------------------------------------
-- Lookups after an update
-----------------------------------------------------------------------------------------

variable {manager after : ValidatorManager} {reply : ValidatorResult}

theorem lookup_updateProposal (id other : Nat) (f : ValidatorProposal → ValidatorProposal)
    (manager : ValidatorManager)
    : (manager.updateProposal id f).proposals.lookup other
      = if other = id then (manager.proposals.lookup other).map f
        else manager.proposals.lookup other :=
  FinMap.lookup_modify id other f manager.proposals

@[simp]
theorem lookup_updateProposal_self (id : Nat) (f : ValidatorProposal → ValidatorProposal)
    (manager : ValidatorManager)
    : (manager.updateProposal id f).proposals.lookup id
      = (manager.proposals.lookup id).map f := by
  rw [lookup_updateProposal, if_pos rfl]

/-- The state a proposal has passed through is not seen afterwards. -/
theorem modify_withState_withState (id : Nat) (first second : ProposalState)
    (proposals : FinMap Nat ValidatorProposal)
    : FinMap.modify id (·.withState second) (FinMap.modify id (·.withState first) proposals)
      = FinMap.modify id (·.withState second) proposals :=
  FinMap.modify_modify id _ _ proposals

/-- The proposal a manager opens. -/
def openedProposal (proposer : Address) (proposalType : ProposalType) (target : Address)
    (currentBlock : UInt64) (manager : ValidatorManager) : ValidatorProposal :=
  { id := manager.nextProposalId
    proposalType
    target
    proposer
    votesFor := [proposer]
    votesAgainst := []
    proposedAt := currentBlock
    expiresAt := currentBlock + manager.config.proposalTtlBlocks
    state := .pending }

theorem lookup_openProposal (proposer : Address) (proposalType : ProposalType)
    (target : Address) (currentBlock : UInt64) (manager : ValidatorManager) (other : Nat)
    : (manager.openProposal proposer proposalType target currentBlock).proposals.lookup other
      = if other = manager.nextProposalId then
          some (manager.openedProposal proposer proposalType target currentBlock)
        else manager.proposals.lookup other :=
  FinMap.lookup_insert_eq _ _ _ _

-----------------------------------------------------------------------------------------
-- What each operation does
-----------------------------------------------------------------------------------------

/-- The validators after a change. -/
def changed (proposalType : ProposalType) (target : Address) (validators : List Address)
    : List Address :=
  match proposalType with
  | .add => validators ++ [target]
  | .remove => validators.filter (fun v => v ≠ target)

/-- The manager after the execution of a proposal. -/
def executed (proposal : ValidatorProposal) (proposalId : Nat) (currentBlock : UInt64)
    (manager : ValidatorManager) : ValidatorManager :=
  { manager.updateProposal proposalId (·.withState .executed) with
    validators := changed proposal.proposalType proposal.target manager.validators
    history :=
      manager.history ++ [(currentBlock, proposal.proposalType, proposal.target)] }

/-- A check executes the proposal on enough votes for it; otherwise it rejects it or leaves it
pending.
-/
theorem checkAndExecute_cases {proposalId : Nat} {currentBlock : UInt64}
    (returns : manager.checkAndExecute proposalId currentBlock = some (reply, after))
    : ∃ quorum proposal,
        manager.quorumThreshold = some quorum
        ∧ manager.proposals.lookup proposalId = some proposal
        ∧ ((quorum ≤ proposal.votesFor.length
              ∧ after = manager.executed proposal proposalId currentBlock)
            ∨ (proposal.votesFor.length < quorum
              ∧ (after = manager.updateProposal proposalId (·.withState .rejected)
                ∨ after = manager))) := by
  unfold checkAndExecute at returns
  cases threshold : manager.quorumThreshold with
  | none => simp [threshold] at returns
  | some quorum =>
      cases found : manager.proposals.lookup proposalId with
      | none => simp [threshold, found] at returns
      | some proposal =>
          refine ⟨quorum, proposal, rfl, rfl, ?_⟩
          simp only [threshold, found, Option.bind_eq_bind, Option.bind_some] at returns
          split at returns
          next enough =>
            refine Or.inl ⟨enough, ?_⟩
            cases kind : proposal.proposalType with
            | add =>
                simp only [kind, updateProposal, modify_withState_withState,
                  Option.some.injEq, Prod.mk.injEq] at returns
                simp only [← returns.2, executed, updateProposal, kind, changed]
            | remove =>
                simp only [kind, updateProposal, modify_withState_withState,
                  Option.some.injEq, Prod.mk.injEq] at returns
                simp only [← returns.2, executed, updateProposal, kind, changed]
          next few =>
            refine Or.inr ⟨Nat.lt_of_not_le few, ?_⟩
            split at returns
            next => exact Or.inl (Prod.mk.inj (Option.some.inj returns)).2.symm
            next => exact Or.inr (Prod.mk.inj (Option.some.inj returns)).2.symm

/-- A call of `propose` changes nothing, or opens a proposal and checks it when one vote is
enough.
-/
theorem propose_cases {proposer target : Address} {proposalType : ProposalType}
    {currentBlock : UInt64}
    (returns
      : manager.propose proposer proposalType target currentBlock = some (reply, after))
    : (after = manager ∧ manager.refusal proposer proposalType target ≠ none)
      ∨ (manager.refusal proposer proposalType target = none
        ∧ ∃ quorum,
            manager.quorumThreshold = some quorum
            ∧ ((1 < quorum
                ∧ after = manager.openProposal proposer proposalType target currentBlock)
              ∨ (quorum ≤ 1
                ∧ (manager.openProposal proposer proposalType target
                    currentBlock).checkAndExecute manager.nextProposalId currentBlock
                  = some (reply, after)))) := by
  unfold propose at returns
  cases refused : manager.refusal proposer proposalType target with
  | some e =>
      simp only [refused, Option.some.injEq, Prod.mk.injEq] at returns
      exact Or.inl ⟨returns.2.symm, Option.some_ne_none e⟩
  | none =>
      refine Or.inr ⟨rfl, ?_⟩
      have same
          : (manager.openProposal proposer proposalType target currentBlock).quorumThreshold
            = manager.quorumThreshold := rfl
      cases threshold : manager.quorumThreshold with
      | none => simp [refused, same, threshold] at returns
      | some quorum =>
          simp only [refused, same, threshold, Option.bind_eq_bind, Option.bind_some] at returns
          refine ⟨quorum, rfl, ?_⟩
          split at returns
          next few => exact Or.inr ⟨few, returns⟩
          next many =>
            exact Or.inl ⟨Nat.lt_of_not_le many,
              (Prod.mk.inj (Option.some.inj returns)).2.symm⟩

/-- The vote is accepted: its voter is a validator who has not voted on this pending proposal.
-/
structure Accepts (manager : ValidatorManager) (proposal : ValidatorProposal)
    (proposalId : Nat) (voter : Address) : Prop where
  validator : manager.IsValidator voter
  found : manager.proposals.lookup proposalId = some proposal
  pending : proposal.state = .pending
  first : ¬ proposal.HasVoted voter

/-- A vote is refused and changes nothing, or is recorded and followed by a check. -/
theorem vote_cases {proposalId : Nat} {voter : Address} {approve : Bool}
    {currentBlock : UInt64}
    (returns : manager.vote proposalId voter approve currentBlock = some (reply, after))
    : (after = manager ∧ ∀ proposal, ¬ manager.Accepts proposal proposalId voter)
      ∨ ∃ proposal,
          manager.Accepts proposal proposalId voter
          ∧ (manager.updateProposal proposalId (·.record voter approve)).checkAndExecute
              proposalId currentBlock
            = some (reply, after) := by
  unfold vote at returns
  split at returns
  next outsider =>
    refine Or.inl ⟨(Prod.mk.inj (Option.some.inj returns)).2.symm, ?_⟩
    exact fun proposal accepted => outsider accepted.validator
  next member =>
    cases found : manager.proposals.lookup proposalId with
    | none =>
        simp only [found, Option.some.injEq, Prod.mk.injEq] at returns
        refine Or.inl ⟨returns.2.symm, ?_⟩
        intro proposal accepted
        exact Option.some_ne_none _ (accepted.found.symm.trans found)
    | some proposal =>
        have only {other} (accepted : manager.Accepts other proposalId voter)
            : other = proposal :=
          Option.some.inj (accepted.found.symm.trans found)
        simp only [found] at returns
        split at returns
        next settled =>
          refine Or.inl ⟨(Prod.mk.inj (Option.some.inj returns)).2.symm, ?_⟩
          intro other accepted
          exact settled (only accepted ▸ accepted.pending)
        next pending =>
          split at returns
          next again =>
            refine Or.inl ⟨(Prod.mk.inj (Option.some.inj returns)).2.symm, ?_⟩
            intro other accepted
            exact accepted.first (only accepted ▸ again)
          next first =>
            exact Or.inr ⟨proposal,
              ⟨not_not.mp member, found, not_not.mp pending, first⟩, returns⟩

/-- After an accepted vote the proposal is still pending, with the vote on it. -/
theorem Accepts.recorded {proposal : ValidatorProposal} {proposalId : Nat} {voter : Address}
    (accepts : manager.Accepts proposal proposalId voter) (approve : Bool)
    : (manager.updateProposal proposalId (·.record voter approve)).proposals.lookup proposalId
        = some (proposal.record voter approve)
      ∧ (proposal.record voter approve).state = .pending := by
  rw [lookup_updateProposal_self, accepts.found, ValidatorProposal.state_record]
  exact ⟨rfl, accepts.pending⟩

/-- A relation that composes and holds of each write holds of a whole operation: a proposal is
opened or voted on and then checked, or a sweep runs.
-/
theorem rel_of_call {R : ValidatorManager → ValidatorManager → Prop} {op : GovernanceCall}
    {replies : List ValidatorResult} (refl : R manager manager)
    (trans : ∀ first second third, R first second → R second third → R first third)
    (opens
      : ∀ proposer proposalType target currentBlock,
          R manager (manager.openProposal proposer proposalType target currentBlock))
    (records
      : ∀ proposal id voter approve, manager.Accepts proposal id voter →
          R manager (manager.updateProposal id (·.record voter approve)))
    (checks
      : ∀ (ready after : ValidatorManager) proposal id currentBlock reply,
          ready.proposals.lookup id = some proposal → proposal.state = .pending →
          ready.checkAndExecute id currentBlock = some (reply, after) → R ready after)
    (sweeps : ∀ order currentBlock, R manager (manager.expireProposals order currentBlock).2)
    (returns : call op manager = some (replies, after))
    : R manager after := by
  cases op with
  | propose proposer proposalType target currentBlock =>
      obtain ⟨out, proposed, same⟩ := Option.map_eq_some_iff.mp returns
      obtain rfl := (Prod.mk.inj same).2
      have opened := opens proposer proposalType target currentBlock
      rcases propose_cases proposed
        with ⟨unchanged, _⟩ | ⟨_, _, _, ⟨_, isOpen⟩ | ⟨_, check⟩⟩
      · rwa [unchanged]
      · rwa [isOpen]
      · have found := lookup_openProposal proposer proposalType target currentBlock manager
          manager.nextProposalId
        rw [if_pos rfl] at found
        exact trans _ _ _ opened (checks _ _ _ _ _ _ found rfl check)
  | vote id voter approve currentBlock =>
      obtain ⟨out, voted, same⟩ := Option.map_eq_some_iff.mp returns
      obtain rfl := (Prod.mk.inj same).2
      rcases vote_cases voted with ⟨unchanged, _⟩ | ⟨proposal, accepts, check⟩
      · rwa [unchanged]
      · obtain ⟨found, pending⟩ := accepts.recorded approve
        exact trans _ _ _ (records proposal id voter approve accepts)
          (checks _ _ _ _ _ _ found pending check)
  | expireProposals order currentBlock =>
      obtain rfl := (Prod.mk.inj (Option.some.inj returns)).2
      exact sweeps order currentBlock

/-- The quorum can be computed when its denominator is not zero. -/
theorem exists_quorumThreshold (denominator : manager.config.quorumDenominator ≠ 0)
    : ∃ quorum, manager.quorumThreshold = some quorum := by
  simp only [quorumThreshold, divCeil, if_neg denominator]
  split <;> exact ⟨_, rfl⟩

/-- A check of a stored proposal returns when the quorum can be computed. -/
theorem checkAndExecute_returns {proposal : ValidatorProposal} {proposalId : Nat}
    (currentBlock : UInt64) (denominator : manager.config.quorumDenominator ≠ 0)
    (found : manager.proposals.lookup proposalId = some proposal)
    : (manager.checkAndExecute proposalId currentBlock).isSome := by
  obtain ⟨quorum, threshold⟩ := exists_quorumThreshold denominator
  simp only [checkAndExecute, threshold, found, Option.bind_eq_bind, Option.bind_some]
  split
  next => cases proposal.proposalType <;> rfl
  next => split <;> rfl

/-- Every operation returns, unless the quorum has a zero denominator. -/
theorem call_returns (denominator : manager.config.quorumDenominator ≠ 0) (op : GovernanceCall)
    : (call op manager).isSome := by
  cases op with
  | propose proposer proposalType target currentBlock =>
      simp only [call, Option.isSome_map, propose]
      cases manager.refusal proposer proposalType target with
      | some e => rfl
      | none =>
          obtain ⟨quorum, threshold⟩ := exists_quorumThreshold denominator
          have same
              : (manager.openProposal proposer proposalType target currentBlock).quorumThreshold
                = some quorum := threshold
          have found := lookup_openProposal proposer proposalType target currentBlock manager
            manager.nextProposalId
          rw [if_pos rfl] at found
          simp only [same, Option.bind_eq_bind, Option.bind_some]
          split
          next => exact checkAndExecute_returns currentBlock denominator found
          next => rfl
  | vote id voter approve currentBlock =>
      simp only [call, Option.isSome_map, vote]
      split
      next => rfl
      next member =>
        cases found : manager.proposals.lookup id with
        | none => rfl
        | some proposal =>
            simp only
            split
            next => rfl
            next pending =>
              split
              next => rfl
              next first =>
                have accepts : manager.Accepts proposal id voter :=
                  ⟨not_not.mp member, found, not_not.mp pending, first⟩
                have recorded := (accepts.recorded approve).1
                exact checkAndExecute_returns currentBlock denominator recorded
  | expireProposals order currentBlock => rfl

end ValidatorManager

end VeloChain
