import VeloChain.State.StateRoot
import VeloChain.Storage.RocksDb

/-! Commits of the world state whose writes can fail.
The pending accounts are drained before the first write, so a commit that fails forgets the
account whose write failed and all accounts after it.
-/

namespace VeloChain.WorldState

-----------------------------------------------------------------------------------------
-- Commits with failing writes
-----------------------------------------------------------------------------------------

/-- What the database answers to the write with this number: a message where it fails. -/
abbrev WriteFaults := Nat → Option String

/-- Write drained accounts to the database; the first write that fails ends the loop. -/
def tryWriteAccounts (codec : Codec Account) (faults : WriteFaults)
    (dirty : FinMap Address Account)
    : Nat → List Address → Database → Except WriteError Unit × Database
  | _, [], db => (.ok (), db)
  | position, address :: rest, db =>
      match faults position with
      | some message => (.error (.database message), db)
      | none =>
          tryWriteAccounts codec faults dirty (position + 1) rest
            (match dirty.lookup address with
              | some account => db.putGameState (addressSlice address) (codec.encode account)
              | none => db)

/-- Commit all uncommitted accounts to the database, which may fail. -/
def tryCommit (codec : Codec Account) (keccak256 : Bytes → B256)
    (order : IterationOrder Address Account) (faults : WriteFaults) (state : WorldState)
    (db : Database) : Except WriteError B256 × WorldState × Database :=
  let dirty := state.dirtyAccounts
  let drained := { state with dirtyAccounts := ∅ }
  match tryWriteAccounts codec faults dirty 0 (order.keys dirty) db with
  | (.error e, db) => (.error e, drained, db)
  | (.ok (), db) =>
      let root := computeStateRoot codec keccak256 drained
      (.ok root, { drained with stateRoot := root }, db)

/-- No write fails. -/
def noFaults : WriteFaults := fun _ => none

/-- The accounts that a commit does not write: from the first write that fails on. -/
def unwritten (faults : WriteFaults) : Nat → List Address → List Address
  | _, [] => []
  | position, address :: rest =>
      if (faults position).isSome then address :: rest
      else unwritten faults (position + 1) rest

/-- What happens between two successful commits, and any commits. -/
inductive CommitOp
  | getAccount (address : Address)
  | putAccount (address : Address) (account : Account)
  | commit (order : IterationOrder Address Account) (faults : WriteFaults)

/-- The account that an operation puts. -/
def CommitOp.puts (address : Address) : CommitOp → Option Account
  | .putAccount address' account => if address' = address then some account else none
  | _ => none

section Runs

variable (codec : Codec Account) (keccak256 : Bytes → B256)

/-- World state and database after an operation. -/
def CommitOp.apply (op : CommitOp) (held : WorldState × Database) : WorldState × Database :=
  match op with
  | .getAccount address => ((held.1.getAccount codec held.2 address).2, held.2)
  | .putAccount address account => (held.1.putAccount address account, held.2)
  | .commit order faults => (held.1.tryCommit codec keccak256 order faults held.2).2

/-- World state and database after some operations. -/
def runOps (ops : List CommitOp) (held : WorldState × Database) : WorldState × Database :=
  ops.foldl (fun held op => op.apply codec keccak256 held) held

/-- The account put last under an address, where `dirty` are the accounts put before. -/
def latestPut (dirty : FinMap Address Account) (ops : List CommitOp) (address : Address)
    : Option Account :=
  ops.foldl (fun last op => (op.puts address).or last) (dirty.lookup address)

/-- After the operations and a commit without failures, the database holds the latest value of
every account that was put.
-/
def LosesNoWrite (ops : List CommitOp) (order : IterationOrder Address Account)
    (state : WorldState) (db : Database) : Prop :=
  let after := runOps codec keccak256 (ops ++ [.commit order noFaults]) (state, db)
  ∀ address account, latestPut state.dirtyAccounts ops address = some account →
    after.2.getGameState (addressSlice address) = some (codec.encode account)

/-- Every account that a commit does not write is put again later, or the database holds its
value already.
-/
def RecoversWrites (ops : List CommitOp) (state : WorldState) (db : Database) : Prop :=
  ∀ earlier order faults later, ops = earlier ++ .commit order faults :: later →
    let held := runOps codec keccak256 earlier (state, db)
    ∀ address ∈ unwritten faults 0 (order.keys held.1.dirtyAccounts),
      (∀ op ∈ later, op.puts address = none) →
        ∀ account, held.1.dirtyAccounts.lookup address = some account →
          held.2.getGameState (addressSlice address) = some (codec.encode account)

end Runs

-----------------------------------------------------------------------------------------
-- One commit
-----------------------------------------------------------------------------------------

variable {codec : Codec Account} {keccak256 : Bytes → B256} {faults : WriteFaults}

/-- A loop that may fail writes what comes before the first failing write. -/
theorem tryWriteAccounts_eq (dirty : FinMap Address Account) (position : Nat)
    (addresses : List Address) (db : Database)
    : ∃ written,
        addresses = written ++ unwritten faults position addresses
        ∧ (tryWriteAccounts codec faults dirty position addresses db).2
          = writeAccounts codec dirty written db := by
  induction addresses generalizing position db with
  | nil => exact ⟨[], rfl, rfl⟩
  | cons address rest ih =>
      unfold tryWriteAccounts unwritten
      cases fault : faults position with
      | some message => exact ⟨[], rfl, rfl⟩
      | none =>
          obtain ⟨written, split, same⟩ :=
            ih (position + 1)
              (match dirty.lookup address with
                | some account => db.putGameState (addressSlice address) (codec.encode account)
                | none => db)
          exact ⟨address :: written, congrArg (address :: ·) split, same⟩

theorem unwritten_noFaults (position : Nat) (addresses : List Address)
    : unwritten noFaults position addresses = [] := by
  induction addresses generalizing position with
  | nil => rfl
  | cons address rest ih => exact ih (position + 1)

variable {order : IterationOrder Address Account} {state : WorldState} {db : Database}

theorem dirtyAccounts_tryCommit
    : (tryCommit codec keccak256 order faults state db).2.1.dirtyAccounts = ∅ := by
  unfold tryCommit
  simp only
  split <;> rfl

theorem tryCommit_db
    : (tryCommit codec keccak256 order faults state db).2.2
      = (tryWriteAccounts codec faults state.dirtyAccounts 0 (order.keys state.dirtyAccounts)
          db).2 := by
  unfold tryCommit
  simp only
  split
  next written => rw [written]
  next written => rw [written]

/-- Where no write fails, a commit is the one that cannot fail. -/
theorem tryCommit_noFaults
    : tryCommit codec keccak256 order noFaults state db
      = (.ok (state.commit codec db keccak256 order).1,
          (state.commit codec db keccak256 order).2) := by
  have writes (dirty : FinMap Address Account) (position : Nat) (addresses : List Address)
      (db : Database)
      : tryWriteAccounts codec noFaults dirty position addresses db
        = (.ok (), writeAccounts codec dirty addresses db) := by
    induction addresses generalizing position db with
    | nil => rfl
    | cons address rest ih => exact ih (position + 1) _
  unfold tryCommit commit
  simp only [writes]
  rfl

/-- What a commit leaves under an address: what was there where it does not write the account,
and else the pending value, if there is one.
-/
theorem getGameState_tryCommit (address : Address)
    : (tryCommit codec keccak256 order faults state db).2.2.getGameState (addressSlice address)
      = if address ∈ unwritten faults 0 (order.keys state.dirtyAccounts) then
          db.getGameState (addressSlice address)
        else
          ((state.dirtyAccounts.lookup address).map codec.encode).or
            (db.getGameState (addressSlice address)) := by
  obtain ⟨written, split, same⟩ :=
    @tryWriteAccounts_eq codec faults state.dirtyAccounts 0 (order.keys state.dirtyAccounts) db
  have nodup := order.nodup state.dirtyAccounts
  rw [split] at nodup
  obtain ⟨nodupWritten, _, apart⟩ := List.nodup_append.mp nodup
  rw [tryCommit_db, same, getGameState_writeAccounts _ _ nodupWritten]
  by_cases lost : address ∈ unwritten faults 0 (order.keys state.dirtyAccounts)
  · rw [if_pos lost, if_neg]
    exact fun isWritten => apart address isWritten address lost rfl
  · rw [if_neg lost]
    by_cases isWritten : address ∈ written
    · rw [if_pos isWritten]
    · have missing : address ∉ order.keys state.dirtyAccounts := by
        rw [split, List.mem_append]
        exact not_or.mpr ⟨isWritten, lost⟩
      rw [if_neg isWritten, Finmap.lookup_eq_none.mpr (mt (order.mem_keys _ _).mpr missing)]
      rfl

-----------------------------------------------------------------------------------------
-- One account
-----------------------------------------------------------------------------------------

variable {address : Address} {held : WorldState × Database} {ops : List CommitOp}

theorem runOps_append (earlier later : List CommitOp) (held : WorldState × Database)
    : runOps codec keccak256 (earlier ++ later) held
      = runOps codec keccak256 later (runOps codec keccak256 earlier held) :=
  List.foldl_append

theorem latestPut_append (dirty : FinMap Address Account) (ops : List CommitOp) (op : CommitOp)
    (address : Address)
    : latestPut dirty (ops ++ [op]) address
      = (op.puts address).or (latestPut dirty ops address) := by
  rw [latestPut, List.foldl_append]
  rfl

/-- After a commit nothing is pending, whether writes failed or not. -/
theorem lookup_apply_commit (address : Address) (held : WorldState × Database)
    : (CommitOp.apply codec keccak256 (.commit order faults) held).1.dirtyAccounts.lookup
        address = none := by
  change (tryCommit codec keccak256 order faults held.1 held.2).2.1.dirtyAccounts.lookup
    address = none
  rw [dirtyAccounts_tryCommit]
  rfl

/-- An operation is a commit, or it adds its put to the pending accounts and leaves the database
alone.
-/
theorem apply_cases (op : CommitOp) (held : WorldState × Database)
    : (∃ order faults, op = .commit order faults)
      ∨ (∀ order faults, op ≠ .commit order faults)
        ∧ (∀ address,
          (op.apply codec keccak256 held).1.dirtyAccounts.lookup address
            = (op.puts address).or (held.1.dirtyAccounts.lookup address))
        ∧ (op.apply codec keccak256 held).2 = held.2 := by
  cases op with
  | commit order faults => exact Or.inl ⟨order, faults, rfl⟩
  | getAccount other =>
      refine Or.inr ⟨nofun, fun address => ?_, rfl⟩
      change ((held.1.getAccount codec held.2 other).2).dirtyAccounts.lookup address = _
      rcases getAccount_cases codec held.2 other held.1 with same | ⟨_, _, same⟩
      · rw [same]
        rfl
      · rw [same]
        rfl
  | putAccount other account =>
      refine Or.inr ⟨nofun, fun address => ?_, rfl⟩
      change (held.1.dirtyAccounts.insert other account).lookup address
        = (if other = address then some account else none).or _
      rw [FinMap.lookup_insert_eq]
      by_cases same : other = address
      · rw [if_pos same, if_pos same.symm]
        rfl
      · rw [if_neg same, if_neg (Ne.symm same), Option.none_or]

/-- An account that is neither pending nor put stays as it is stored, by induction on the
operations.
-/
theorem settled (noPuts : ∀ op ∈ ops, op.puts address = none)
    (clean : held.1.dirtyAccounts.lookup address = none)
    : (runOps codec keccak256 ops held).1.dirtyAccounts.lookup address = none
      ∧ (runOps codec keccak256 ops held).2.getGameState (addressSlice address)
        = held.2.getGameState (addressSlice address) := by
  induction ops generalizing held with
  | nil => exact ⟨clean, rfl⟩
  | cons op rest ih =>
      obtain ⟨noPut, noPuts⟩ := List.forall_mem_cons.mp noPuts
      have step
          : (op.apply codec keccak256 held).1.dirtyAccounts.lookup address = none
            ∧ (op.apply codec keccak256 held).2.getGameState (addressSlice address)
              = held.2.getGameState (addressSlice address) := by
        rcases @apply_cases codec keccak256 op held with ⟨order, faults, rfl⟩ | ⟨_, pending, same⟩
        · refine ⟨lookup_apply_commit address held, ?_⟩
          refine getGameState_tryCommit address |>.trans ?_
          rw [clean, Option.map_none, Option.none_or, ite_self]
        · rw [pending, noPut, clean, same]
          exact ⟨rfl, rfl⟩
      obtain ⟨clean', same⟩ := ih noPuts step.1
      exact ⟨clean', same.trans step.2⟩

theorem unwritten_subset {faults : WriteFaults} {position : Nat} {addresses : List Address}
    (lost : address ∈ unwritten faults position addresses)
    : address ∈ addresses := by
  induction addresses generalizing position with
  | nil => exact lost
  | cons first rest ih =>
      unfold unwritten at lost
      split at lost
      next => exact lost
      next => exact List.mem_cons_of_mem _ (ih lost)

/-- Whenever a commit among the operations loses the account, the database holds this value. -/
def HeldWhenLost (codec : Codec Account) (keccak256 : Bytes → B256) (address : Address)
    (value : Bytes) (ops : List CommitOp) (held : WorldState × Database) : Prop :=
  ∀ earlier order faults later, ops = earlier ++ .commit order faults :: later →
    let before := runOps codec keccak256 earlier held
    address ∈ unwritten faults 0 (order.keys before.1.dirtyAccounts) →
      before.2.getGameState (addressSlice address) = some value

theorem heldWhenLost_cons {value : Bytes} {op : CommitOp} {rest : List CommitOp}
    : HeldWhenLost codec keccak256 address value (op :: rest) held
      ↔ (∀ order faults, op = .commit order faults →
            address ∈ unwritten faults 0 (order.keys held.1.dirtyAccounts) →
              held.2.getGameState (addressSlice address) = some value)
        ∧ HeldWhenLost codec keccak256 address value rest (op.apply codec keccak256 held) := by
  constructor
  · intro holds
    refine ⟨fun order faults isCommit => ?_, fun earlier order faults later split => ?_⟩
    · exact holds [] order faults rest (by rw [isCommit]; rfl)
    · exact holds (op :: earlier) order faults later (by rw [split]; rfl)
  · rintro ⟨here, holds⟩ earlier order faults later split
    cases earlier with
    | nil => exact here order faults (List.cons.inj split).1
    | cons first earlier =>
        obtain ⟨rfl, splitRest⟩ := List.cons.inj split
        exact holds earlier order faults later splitRest

/-- Nothing is lost that is neither pending nor put. -/
theorem heldWhenLost_of_clean {value : Bytes} (noPuts : ∀ op ∈ ops, op.puts address = none)
    (clean : held.1.dirtyAccounts.lookup address = none)
    : HeldWhenLost codec keccak256 address value ops held := by
  intro earlier order faults later split before lost
  have noPutsEarlier : ∀ op ∈ earlier, op.puts address = none :=
    fun op member => noPuts op (split ▸ List.mem_append_left _ member)
  have missing := Finmap.lookup_eq_none.mp
    (@settled codec keccak256 address held earlier noPutsEarlier clean).1
  exact absurd ((order.mem_keys _ _).mp (unwritten_subset lost)) missing

/-- An account that is pending and not put any more is stored by a later commit without
failures exactly when the database held its value if a commit lost it. By induction on the
operations: the first commit decides.
-/
theorem stored_iff {account : Account} (noPuts : ∀ op ∈ ops, op.puts address = none)
    (pending : held.1.dirtyAccounts.lookup address = some account)
    (order : IterationOrder Address Account)
    : (runOps codec keccak256 (ops ++ [.commit order noFaults]) held).2.getGameState
          (addressSlice address)
        = some (codec.encode account)
      ↔ HeldWhenLost codec keccak256 address (codec.encode account) ops held := by
  induction ops generalizing held with
  | nil =>
      refine iff_of_true ?_ (fun earlier _ _ _ split => by simp at split)
      refine (getGameState_tryCommit address).trans ?_
      rw [unwritten_noFaults, if_neg List.not_mem_nil, pending]
      rfl
  | cons op rest ih =>
      obtain ⟨noPut, noPutsRest⟩ := List.forall_mem_cons.mp noPuts
      rw [heldWhenLost_cons]
      rcases @apply_cases codec keccak256 op held with ⟨order', faults, rfl⟩
        | ⟨notCommit, kept, same⟩
      · have clean :=
          @lookup_apply_commit codec keccak256 faults order' address held
        have noPutsLater : ∀ op ∈ rest ++ [.commit order noFaults], op.puts address = none :=
          List.forall_mem_append.mpr ⟨noPutsRest, List.forall_mem_singleton.mpr rfl⟩
        have left := (@settled codec keccak256 _ _ _ noPutsLater clean).2.trans
          (getGameState_tryCommit address)
        rw [pending, Option.map_some, Option.some_or] at left
        have later := @heldWhenLost_of_clean codec keccak256 _ _ _ (codec.encode account)
          noPutsRest clean
        rw [and_iff_left later]
        change (runOps codec keccak256 (rest ++ [.commit order noFaults])
          (CommitOp.apply codec keccak256 (.commit order' faults) held)).2.getGameState _ = _ ↔ _
        rw [left]
        by_cases lost : address ∈ unwritten faults 0 (order'.keys held.1.dirtyAccounts)
        · rw [if_pos lost]
          refine ⟨fun stored other faults' isCommit _ => stored, fun holds => ?_⟩
          exact holds order' faults rfl lost
        · rw [if_neg lost]
          refine iff_of_true rfl fun other faults' isCommit lost' => ?_
          obtain ⟨rfl, rfl⟩ := CommitOp.commit.inj isCommit
          exact absurd lost' lost
      · have pending' : (op.apply codec keccak256 held).1.dirtyAccounts.lookup address
            = some account := by
          rw [kept, noPut, Option.none_or, pending]
        rw [and_iff_right fun order faults isCommit => absurd isCommit (notCommit order faults)]
        exact ih noPutsRest pending'

/-- An account that has been put is pending after its last put. By induction on the operations,
of which the last one puts it or an earlier one did.
-/
theorem exists_pending {account : Account}
    (put : latestPut held.1.dirtyAccounts ops address = some account)
    : ∃ earlier later,
        ops = earlier ++ later
        ∧ (∀ op ∈ later, op.puts address = none)
        ∧ (runOps codec keccak256 earlier held).1.dirtyAccounts.lookup address = some account := by
  induction ops using List.reverseRecOn with
  | nil => exact ⟨[], [], rfl, fun _ member => absurd member List.not_mem_nil, put⟩
  | append_singleton ops op ih =>
      rw [latestPut_append] at put
      cases puts : op.puts address with
      | none =>
          rw [puts, Option.none_or] at put
          obtain ⟨earlier, later, rfl, noPuts, pending⟩ := ih put
          refine ⟨earlier, later ++ [op], List.append_assoc _ _ _, ?_, pending⟩
          exact List.forall_mem_append.mpr ⟨noPuts, List.forall_mem_singleton.mpr puts⟩
      | some last =>
          rw [puts, Option.some_or] at put
          refine ⟨ops ++ [op], [], (List.append_nil _).symm,
            fun _ member => absurd member List.not_mem_nil, ?_⟩
          rw [runOps_append]
          rcases @apply_cases codec keccak256 op (runOps codec keccak256 ops held) with
            ⟨_, _, rfl⟩ | ⟨_, kept, _⟩
          · cases puts
          · exact (kept address).trans (by rw [puts, put]; rfl)

/-- A pending account has been put, with this value the last time. -/
theorem latestPut_of_pending {account : Account}
    (pending : (runOps codec keccak256 ops held).1.dirtyAccounts.lookup address = some account)
    : latestPut held.1.dirtyAccounts ops address = some account := by
  induction ops using List.reverseRecOn generalizing account with
  | nil => exact pending
  | append_singleton ops op ih =>
      rw [runOps_append] at pending
      rw [latestPut_append]
      change (op.apply codec keccak256 (runOps codec keccak256 ops held)).1.dirtyAccounts.lookup
        address = some account at pending
      rcases @apply_cases codec keccak256 op (runOps codec keccak256 ops held) with
        ⟨order, faults, rfl⟩ | ⟨_, kept, _⟩
      · rw [lookup_apply_commit] at pending
        cases pending
      · rw [kept] at pending
        cases puts : op.puts address with
        | none =>
            rw [puts, Option.none_or] at pending
            rw [Option.none_or]
            exact ih pending
        | some last => rwa [puts] at pending

theorem latestPut_of_noPuts {dirty : FinMap Address Account} {earlier later : List CommitOp}
    (noPuts : ∀ op ∈ later, op.puts address = none)
    : latestPut dirty (earlier ++ later) address = latestPut dirty earlier address := by
  induction later using List.reverseRecOn with
  | nil => rw [List.append_nil]
  | append_singleton later op ih =>
      obtain ⟨noPutsLater, noPut⟩ := List.forall_mem_append.mp noPuts
      rw [← List.append_assoc, latestPut_append, noPut op List.mem_cons_self, Option.none_or,
        ih noPutsLater]

/-- For every world state with any pending accounts and any operations, failing commits among
them, before a commit without failures: the database then holds the latest value of every
account put exactly when every account that a commit did not write was put again or was stored
with its value already.
-/
theorem losesNoWrite_iff (codec : Codec Account) (keccak256 : Bytes → B256)
    (ops : List CommitOp) (order : IterationOrder Address Account) (state : WorldState)
    (db : Database)
    : LosesNoWrite codec keccak256 ops order state db
      ↔ RecoversWrites codec keccak256 ops state db := by
  constructor
  · intro losesNone earlier order' faults later split held address lost noPuts account pending
    have put := losesNone address account (by
      rw [split, List.append_cons, latestPut_of_noPuts noPuts, latestPut_append]
      exact @latestPut_of_pending codec keccak256 address (state, db) earlier account pending)
    rw [split, List.append_assoc, runOps_append] at put
    have noPutsHere : ∀ op ∈ .commit order' faults :: later, op.puts address = none :=
      List.forall_mem_cons.mpr ⟨rfl, noPuts⟩
    exact (stored_iff noPutsHere pending order).mp put [] order' faults later rfl lost
  · intro recovers address account put
    obtain ⟨earlier, later, rfl, noPuts, pending⟩ :=
      @exists_pending codec keccak256 address (state, db) ops account put
    rw [List.append_assoc, runOps_append]
    refine (stored_iff noPuts pending order).mpr ?_
    rintro middle order' faults rest rfl before lost
    obtain ⟨noPutsMiddle, noPutsRest⟩ := List.forall_mem_append.mp noPuts
    -- a pending account has kept its value since its last put
    obtain ⟨kept, found⟩ :=
      Finmap.mem_iff.mp ((order'.mem_keys _ _).mp (unwritten_subset lost))
    have same := latestPut_of_pending found
    rw [← List.nil_append middle, latestPut_of_noPuts noPutsMiddle] at same
    obtain rfl := Option.some.inj (pending.symm.trans same)
    have recovered := recovers (earlier ++ middle) order' faults rest (List.append_assoc _ _ _).symm
      address
    rw [runOps_append] at recovered
    exact recovered lost (List.forall_mem_cons.mp noPutsRest).2 account found

/-- The first write of a commit fails. -/
def firstWriteFails : WriteFaults := fun position => if position = 0 then some "full" else none

/-- Two accounts, of which none is written. -/
def twoPuts : List CommitOp :=
  [.putAccount 5 (.withBalance 10), .putAccount 6 (.withBalance 20),
    .commit byAddress firstWriteFails]

/-- A commit that fails at its first write loses every pending account: a later commit without
failures writes none of them.
-/
theorem losesNoWrite_fails
    : ¬ ∀ (codec : Codec Account) (keccak256 : Bytes → B256) (ops : List CommitOp)
          (order : IterationOrder Address Account) (state : WorldState) (db : Database),
        LosesNoWrite codec keccak256 ops order state db := by
  intro claimed
  have stored := claimed Account.wordCodec hashFromSlice twoPuts byAddress .new .empty 6
    (.withBalance 20) (by decide)
  exact absurd stored (by decide +kernel)

end VeloChain.WorldState
