import VeloChain.Consensus.ValidatorManager

/-! The history of validator governance.
Whatever is proposed, voted on and expired, the validator set is the replay of the recorded
changes, and every change belongs to one executed proposal.
-/

namespace VeloChain

/-- The proposal is decided. -/
def ValidatorProposal.Settled (proposal : ValidatorProposal) : Prop :=
  proposal.state = .rejected ∨ proposal.state = .executed ∨ proposal.state = .expired

theorem ValidatorProposal.Settled.not_pending {proposal : ValidatorProposal}
    (settled : proposal.Settled) : proposal.state ≠ .pending := by
  intro pending
  simp [ValidatorProposal.Settled, pending] at settled

namespace ValidatorManager

/-- The change a proposal has made, if it has been executed. -/
def executedChange (manager : ValidatorManager) (id : Nat) : Option (ProposalType × Address) :=
  (manager.proposals.lookup id).bind
    (fun proposal =>
      if proposal.state = .executed then some (proposal.proposalType, proposal.target)
      else none)

/-- Replay recorded changes over a validator set. -/
def replay (initial : List Address) (history : List (UInt64 × ProposalType × Address))
    : List Address :=
  history.foldl (fun validators entry => changed entry.2.1 entry.2.2 validators) initial

/-- The set is the replay of the history, whose entries are the changes of the executed
proposals, one each; proposals stand under their ids, none of them is caught in the middle of
its execution, and nobody has voted twice on one.
-/
structure Accounted (initial : List Address) (manager : ValidatorManager) : Prop where
  replayed : replay initial manager.history = manager.validators
  executions
    : ∃ ids : List Nat,
        ids.Nodup
        ∧ ids.map manager.executedChange
          = manager.history.map (fun entry => some entry.2)
        ∧ ∀ id, (manager.executedChange id).isSome → id ∈ ids
  numbered
    : ∀ id proposal, manager.proposals.lookup id = some proposal →
        proposal.id = id ∧ id < manager.nextProposalId
  unapproved
    : ∀ id proposal, manager.proposals.lookup id = some proposal → proposal.state ≠ .approved
  ballots
    : ∀ id proposal, manager.proposals.lookup id = some proposal →
        (proposal.votesFor ++ proposal.votesAgainst).Nodup

variable {initial : List Address} {manager after : ValidatorManager} {reply : ValidatorResult}
  {proposal : ValidatorProposal} {proposalId : Nat} {currentBlock : UInt64}

theorem accounted_new (initial : List Address) (config : ValidatorManagerConfig)
    : (new initial config).Accounted initial := by
  have none : ∀ id, (new initial config).proposals.lookup id = none := fun _ => rfl
  refine ⟨rfl, ⟨[], List.nodup_nil, rfl, ?_⟩, ?_, ?_, ?_⟩
  · intro id some
    simp [executedChange, none] at some
  all_goals
    intro id proposal found
    simp [none] at found

-----------------------------------------------------------------------------------------
-- Changes to single proposals
-----------------------------------------------------------------------------------------

theorem executedChange_of_found (found : manager.proposals.lookup proposalId = some proposal)
    : manager.executedChange proposalId
      = if proposal.state = .executed then some (proposal.proposalType, proposal.target)
        else none := by
  rw [executedChange, found, Option.bind_some]

theorem executedChange_updateProposal
    (found : manager.proposals.lookup proposalId = some proposal)
    (pending : proposal.state = .pending) {f : ValidatorProposal → ValidatorProposal}
    (unexecuted : (f proposal).state ≠ .executed) (id : Nat)
    : (manager.updateProposal proposalId f).executedChange id = manager.executedChange id := by
  unfold executedChange
  rw [lookup_updateProposal]
  split
  next same =>
    subst same
    simp only [found, Option.map_some, Option.bind_some, if_neg unexecuted, pending,
      reduceCtorEq, if_false]
  next => rfl

theorem Accounted.executedChange_openProposal (accounted : manager.Accounted initial)
    (proposer : Address) (proposalType : ProposalType) (target : Address)
    (currentBlock : UInt64) (id : Nat)
    : (manager.openProposal proposer proposalType target currentBlock).executedChange id
      = manager.executedChange id := by
  unfold executedChange
  rw [lookup_openProposal]
  split
  next same =>
    cases found : manager.proposals.lookup id with
    | none => rfl
    | some proposal =>
        exact absurd (accounted.numbered id proposal found).2 (same ▸ Nat.lt_irrefl _)
  next => rfl

theorem lookup_executed (found : manager.proposals.lookup proposalId = some proposal)
    (currentBlock : UInt64) (id : Nat)
    : (manager.executed proposal proposalId currentBlock).proposals.lookup id
      = if id = proposalId then some (proposal.withState .executed)
        else manager.proposals.lookup id := by
  have updated := lookup_updateProposal proposalId id (·.withState .executed) manager
  split
  next here =>
    subst here
    rwa [if_pos rfl, found] at updated
  next there => rwa [if_neg there] at updated

theorem executedChange_executed (found : manager.proposals.lookup proposalId = some proposal)
    (currentBlock : UInt64) (id : Nat)
    : (manager.executed proposal proposalId currentBlock).executedChange id
      = if id = proposalId then some (proposal.proposalType, proposal.target)
        else manager.executedChange id := by
  unfold executedChange
  rw [lookup_executed found]
  split <;> rfl

/-- Updates of pending proposals that do not execute them keep the accounts. -/
theorem Accounted.of_lookup (accounted : manager.Accounted initial)
    (set : after.validators = manager.validators) (history : after.history = manager.history)
    (next : manager.nextProposalId ≤ after.nextProposalId)
    (proposals
      : ∀ id proposal, after.proposals.lookup id = some proposal →
          manager.proposals.lookup id = some proposal
          ∨ (proposal.id = id
            ∧ id < after.nextProposalId
            ∧ proposal.state ≠ .approved
            ∧ (proposal.votesFor ++ proposal.votesAgainst).Nodup))
    (changes : ∀ id, after.executedChange id = manager.executedChange id)
    : after.Accounted initial := by
  obtain ⟨ids, nodup, same, all⟩ := accounted.executions
  refine ⟨?_, ⟨ids, nodup, ?_, ?_⟩, ?_, ?_, ?_⟩
  · rw [history, set, accounted.replayed]
  · rw [history, ← same]
    exact List.map_congr_left fun id _ => changes id
  · intro id isSome
    exact all id (by rwa [← changes id])
  · intro id proposal found
    rcases proposals id proposal found with old | ⟨own, below, _, _⟩
    · obtain ⟨own, below⟩ := accounted.numbered id proposal old
      exact ⟨own, Nat.lt_of_lt_of_le below next⟩
    · exact ⟨own, below⟩
  · intro id proposal found
    rcases proposals id proposal found with old | ⟨_, _, unapproved, _⟩
    · exact accounted.unapproved id proposal old
    · exact unapproved
  · intro id proposal found
    rcases proposals id proposal found with old | ⟨_, _, _, nodup⟩
    · exact accounted.ballots id proposal old
    · exact nodup

/-- A pending proposal may be updated, as long as it is not executed. -/
theorem Accounted.update (accounted : manager.Accounted initial)
    (found : manager.proposals.lookup proposalId = some proposal)
    (pending : proposal.state = .pending) {f : ValidatorProposal → ValidatorProposal}
    (own : (f proposal).id = proposal.id) (unapproved : (f proposal).state ≠ .approved)
    (unexecuted : (f proposal).state ≠ .executed)
    (ballots : ((f proposal).votesFor ++ (f proposal).votesAgainst).Nodup)
    : (manager.updateProposal proposalId f).Accounted initial := by
  obtain ⟨number, below⟩ := accounted.numbered proposalId proposal found
  apply accounted.of_lookup
  · rfl
  · rfl
  · exact Nat.le_refl _
  · intro id other stored
    rw [lookup_updateProposal] at stored
    split at stored
    next same =>
      subst same
      rw [found, Option.map_some, Option.some.injEq] at stored
      subst stored
      exact Or.inr ⟨own.trans number, below, unapproved, ballots⟩
    next => exact Or.inl stored
  · exact executedChange_updateProposal found pending unexecuted

/-- A new proposal takes a fresh id. -/
theorem Accounted.openProposal (accounted : manager.Accounted initial) (proposer : Address)
    (proposalType : ProposalType) (target : Address) (currentBlock : UInt64)
    : (manager.openProposal proposer proposalType target currentBlock).Accounted initial := by
  apply accounted.of_lookup
  · rfl
  · rfl
  · exact Nat.le_succ _
  · intro id other stored
    rw [lookup_openProposal] at stored
    split at stored
    next same =>
      obtain rfl := Option.some.inj stored
      exact Or.inr ⟨same.symm, same ▸ Nat.lt_succ_self _, ProposalState.noConfusion,
        List.nodup_singleton _⟩
    next => exact Or.inl stored
  · exact accounted.executedChange_openProposal proposer proposalType target currentBlock

/-- A vote that is accepted is the first of its voter on the proposal. -/
theorem Accounted.record (accounted : manager.Accounted initial) {voter : Address}
    (accepts : manager.Accepts proposal proposalId voter) (approve : Bool)
    : (manager.updateProposal proposalId (·.record voter approve)).Accounted initial := by
  have ballots := accounted.ballots proposalId proposal accepts.found
  obtain ⟨notFor, notAgainst⟩ := not_or.mp accepts.first
  have state := (accepts.recorded approve).2
  apply accounted.update accepts.found accepts.pending
  · cases approve <;> rfl
  · simp [state]
  · simp [state]
  · cases approve with
    | false =>
        change (proposal.votesFor ++ (proposal.votesAgainst ++ [voter])).Nodup
        rw [← List.append_assoc, List.nodup_append_comm]
        simp [ballots, notFor, notAgainst]
    | true =>
        change ((proposal.votesFor ++ [voter]) ++ proposal.votesAgainst).Nodup
        rw [List.append_assoc, List.singleton_append, List.nodup_middle]
        simp [ballots, notFor, notAgainst]

-----------------------------------------------------------------------------------------
-- Execution
-----------------------------------------------------------------------------------------

theorem replay_concat (initial : List Address)
    (history : List (UInt64 × ProposalType × Address)) (entry : UInt64 × ProposalType × Address)
    : replay initial (history ++ [entry])
      = changed entry.2.1 entry.2.2 (replay initial history) := by
  rw [replay, List.foldl_concat]
  rfl

/-- The execution of a pending proposal adds it to the executed ones and its change to the
history.
-/
theorem Accounted.executed (accounted : manager.Accounted initial)
    (found : manager.proposals.lookup proposalId = some proposal)
    (pending : proposal.state = .pending) (currentBlock : UInt64)
    : (manager.executed proposal proposalId currentBlock).Accounted initial := by
  obtain ⟨ids, nodup, same, all⟩ := accounted.executions
  have new : proposalId ∉ ids := by
    intro member
    have isChange : manager.executedChange proposalId
        ∈ manager.history.map (fun entry => some entry.2) :=
      same ▸ List.mem_map_of_mem member
    rw [executedChange_of_found found, pending] at isChange
    simp at isChange
  have kept {id : Nat} {other : ValidatorProposal}
      (stored
        : (manager.executed proposal proposalId currentBlock).proposals.lookup id = some other)
      : (id = proposalId ∧ other = proposal.withState .executed)
        ∨ manager.proposals.lookup id = some other := by
    rw [lookup_executed found] at stored
    split at stored
    next here => exact Or.inl ⟨here, (Option.some.inj stored).symm⟩
    next => exact Or.inr stored
  refine ⟨?_, ⟨ids ++ [proposalId], ?_, ?_, ?_⟩, ?_, ?_, ?_⟩
  · change replay initial
        (manager.history ++ [(currentBlock, proposal.proposalType, proposal.target)]) = _
    rw [replay_concat, accounted.replayed]
    rfl
  · rw [List.nodup_append_comm]
    exact List.nodup_cons.mpr ⟨new, nodup⟩
  · change _ = (manager.history
        ++ [(currentBlock, proposal.proposalType, proposal.target)]).map _
    rw [List.map_append, List.map_append, ← same, List.map_singleton, List.map_singleton,
      executedChange_executed found, if_pos rfl]
    congr 1
    apply List.map_congr_left
    intro id member
    have other : id ≠ proposalId := fun equal => new (equal ▸ member)
    rw [executedChange_executed found, if_neg other]
  · intro id isSome
    rw [executedChange_executed found] at isSome
    split at isSome
    next here => simp [here]
    next => exact List.mem_append_left _ (all id isSome)
  · intro id other stored
    rcases kept stored with ⟨rfl, rfl⟩ | old
    · exact accounted.numbered id proposal found
    · exact accounted.numbered id other old
  · intro id other stored
    rcases kept stored with ⟨rfl, rfl⟩ | old
    · exact ProposalState.noConfusion
    · exact accounted.unapproved id other old
  · intro id other stored
    rcases kept stored with ⟨rfl, rfl⟩ | old
    · exact accounted.ballots id proposal found
    · exact accounted.ballots id other old

/-- A check of a pending proposal keeps the accounts. -/
theorem Accounted.check (accounted : manager.Accounted initial)
    (found : manager.proposals.lookup proposalId = some proposal)
    (pending : proposal.state = .pending)
    (returns : manager.checkAndExecute proposalId currentBlock = some (reply, after))
    : after.Accounted initial := by
  obtain ⟨quorum, other, _, same, decided⟩ := checkAndExecute_cases returns
  obtain rfl : proposal = other := Option.some.inj (found.symm.trans same)
  rcases decided with ⟨_, rfl⟩ | ⟨_, rfl | rfl⟩
  · exact accounted.executed found pending currentBlock
  · exact accounted.update found pending rfl ProposalState.noConfusion
      ProposalState.noConfusion (accounted.ballots proposalId proposal found)
  · exact accounted

-----------------------------------------------------------------------------------------
-- Expiry
-----------------------------------------------------------------------------------------

/-- A sweep expires the pending proposals that are due, in whatever order it meets them. -/
theorem Accounted.lookup_expireProposals (accounted : manager.Accounted initial)
    (order : IterationOrder Nat ValidatorProposal) (currentBlock : UInt64) (id : Nat)
    : (manager.expireProposals order currentBlock).2.proposals.lookup id
      = (manager.proposals.lookup id).map
          (fun proposal =>
            if proposal.state = .pending ∧ proposal.expiresAt ≤ currentBlock then
              proposal.withState .expired
            else proposal) := by
  have swept := @FinMap.map_filter_filterMap_lookup _ _ _ manager.proposals
    ValidatorProposal.id (fun id proposal found => (accounted.numbered id proposal found).1)
    (fun proposal => proposal.state = .pending ∧ proposal.expiresAt ≤ currentBlock)
    (order.keys manager.proposals)
  have nodup : (manager.expiredIds order currentBlock).Nodup := by
    rw [expiredIds, swept]
    exact (order.nodup manager.proposals).filter _
  change (FinMap.modifyAll (manager.expiredIds order currentBlock) _ _).lookup id = _
  rw [FinMap.lookup_modifyAll nodup, expiredIds, swept]
  cases found : manager.proposals.lookup id with
  | none => simp
  | some proposal =>
      have member := (order.mem_keys manager.proposals id).mpr
        (Finmap.mem_of_lookup_eq_some found)
      simp only [List.mem_filter, member, found, Option.any_some, decide_eq_true_eq, true_and,
        Option.map_some]
      split <;> rfl

/-- A sweep executes nothing. -/
theorem Accounted.executedChange_expireProposals (accounted : manager.Accounted initial)
    (order : IterationOrder Nat ValidatorProposal) (currentBlock : UInt64) (id : Nat)
    : (manager.expireProposals order currentBlock).2.executedChange id
      = manager.executedChange id := by
  unfold executedChange
  rw [accounted.lookup_expireProposals]
  cases found : manager.proposals.lookup id with
  | none => rfl
  | some proposal =>
      rw [Option.map_some, Option.bind_some, Option.bind_some]
      split
      next due => simp [ValidatorProposal.withState, due.1]
      next => rfl

theorem Accounted.expireProposals (accounted : manager.Accounted initial)
    (order : IterationOrder Nat ValidatorProposal) (currentBlock : UInt64)
    : (manager.expireProposals order currentBlock).2.Accounted initial := by
  have lookup := accounted.lookup_expireProposals order currentBlock
  apply accounted.of_lookup
  · rfl
  · rfl
  · exact Nat.le_refl _
  · intro id other stored
    rw [lookup] at stored
    cases found : manager.proposals.lookup id with
    | none => simp [found] at stored
    | some proposal =>
        rw [found, Option.map_some, Option.some.injEq] at stored
        split at stored
        next =>
          obtain ⟨own, below⟩ := accounted.numbered id proposal found
          subst stored
          exact Or.inr ⟨own, below, ProposalState.noConfusion,
            accounted.ballots id proposal found⟩
        next => exact Or.inl (congrArg some stored)
  · exact accounted.executedChange_expireProposals order currentBlock

-----------------------------------------------------------------------------------------
-- Runs
-----------------------------------------------------------------------------------------

/-- What one operation does to the accounts. -/
theorem Accounted.call (accounted : manager.Accounted initial) {op : GovernanceCall}
    {replies : List ValidatorResult} (returns : call op manager = some (replies, after))
    : after.Accounted initial := by
  have kept : manager.Accounted initial → after.Accounted initial := by
    refine @rel_of_call manager after
      (fun before after => before.Accounted initial → after.Accounted initial) op replies
      id (fun _ _ _ left right => right ∘ left) ?opens ?records ?checks ?sweeps returns
    case opens => exact fun _ _ _ _ accounted => accounted.openProposal _ _ _ _
    case records => exact fun _ _ _ approve accepts accounted => accounted.record accepts approve
    case checks =>
      exact fun _ _ _ _ _ _ found pending check accounted => accounted.check found pending check
    case sweeps => exact fun order block accounted => accounted.expireProposals order block
  exact kept accounted

/-- Every decided proposal is as it was. -/
def SettledKept (before after : ValidatorManager) : Prop :=
  ∀ id proposal, before.proposals.lookup id = some proposal → proposal.Settled →
    after.proposals.lookup id = some proposal

theorem SettledKept.trans {first second third : ValidatorManager}
    (left : SettledKept first second) (right : SettledKept second third)
    : SettledKept first third :=
  fun id proposal found settled => right id proposal (left id proposal found settled) settled

/-- An update of a pending proposal leaves the decided ones alone. -/
theorem SettledKept.of_update (found : manager.proposals.lookup proposalId = some proposal)
    (pending : proposal.state = .pending) (f : ValidatorProposal → ValidatorProposal)
    : SettledKept manager (manager.updateProposal proposalId f) := by
  intro id other stored settled
  have different : id ≠ proposalId := by
    intro same
    subst same
    obtain rfl := Option.some.inj (stored.symm.trans found)
    exact settled.not_pending pending
  rw [lookup_updateProposal, if_neg different, stored]

theorem SettledKept.of_check (found : manager.proposals.lookup proposalId = some proposal)
    (pending : proposal.state = .pending)
    (returns : manager.checkAndExecute proposalId currentBlock = some (reply, after))
    : SettledKept manager after := by
  obtain ⟨_, _, _, _, ⟨_, rfl⟩ | ⟨_, rfl | rfl⟩⟩ := checkAndExecute_cases returns
  · exact SettledKept.of_update found pending (·.withState .executed)
  · exact SettledKept.of_update found pending (·.withState .rejected)
  · exact fun _ _ stored _ => stored

/-- No operation touches a decided proposal. -/
theorem Accounted.settledKept (accounted : manager.Accounted initial) {op : GovernanceCall}
    {replies : List ValidatorResult} (returns : manager.call op = some (replies, after))
    : SettledKept manager after := by
  refine rel_of_call ?refl ?trans ?opens ?records ?checks ?sweeps returns
  case refl => exact fun _ _ stored _ => stored
  case trans => exact fun _ _ _ => SettledKept.trans
  case opens =>
    intro proposer proposalType target currentBlock id other stored _
    have old := Nat.ne_of_lt (accounted.numbered id other stored).2
    rw [lookup_openProposal, if_neg old, stored]
  case records =>
    exact fun _ _ _ _ accepts => SettledKept.of_update accepts.found accepts.pending _
  case checks => exact fun _ _ _ _ _ _ => SettledKept.of_check
  case sweeps =>
    intro order currentBlock id other stored settled
    have swept := accounted.lookup_expireProposals order currentBlock id
    rwa [stored, Option.map_some, if_neg (fun due => settled.not_pending due.1)] at swept

/-- After every run the set is the replay of the history, whose entries match the executed
proposals one to one; no proposal is left approved or counts a voter twice, and a decided
proposal stays as it is whatever follows.
-/
theorem governance_history (initial : List Address) (config : ValidatorManagerConfig)
    (ops more : List GovernanceCall)
    : (CallTrace.final call ops (new initial config)).Accounted initial
      ∧ SettledKept (CallTrace.final call ops (new initial config))
          (CallTrace.final call (ops ++ more) (new initial config)) := by
  have start := accounted_new initial config
  constructor
  · exact CallTrace.final_invariant (Accounted initial)
      (fun _ _ _ _ accounted returns => accounted.call returns) start
  · apply CallTrace.final_append SettledKept (fun _ _ _ stored _ => stored)
      (fun _ _ _ => SettledKept.trans)
    intro turn member
    have accounted := CallTrace.calls_invariant (Accounted initial)
      (fun _ _ _ _ accounted returns => accounted.call returns) start turn member
    exact accounted.1.settledKept (CallTrace.call_of_mem member)

end ValidatorManager

end VeloChain
