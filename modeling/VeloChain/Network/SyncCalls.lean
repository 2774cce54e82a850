import VeloChain.Lib.CallTrace
import VeloChain.Network.ImportSafety

/-! The sync engine called from outside: what each operation returns, and what a run has
released for import so far.
-/

namespace VeloChain

/-- What an operation of the sync engine returns. -/
inductive SyncReply
  | done
  | headerRequests (requests : List (Nat × Nat × Nat × Option String))
  | bodyRequests (requests : List (Nat × List B256 × Option String))
  | result (result : SyncResult)
  | results (results : List SyncResult)
  | importReady (numbers : List Nat)
  deriving DecidableEq

/-- The numbers that are handed out for import. -/
def SyncReply.drained : SyncReply → List Nat
  | .importReady numbers => numbers
  | _ => []

/-- The peers that the returned requests are addressed to. -/
def SyncReply.addressees : SyncReply → List (Option String)
  | .headerRequests requests => requests.map (fun request => request.2.2.2)
  | .bodyRequests requests => requests.map (fun request => request.2.2)
  | _ => []

namespace SyncEngine

def reply (engine : SyncEngine) : SyncOp → SyncReply
  | .banPeer _ => .done
  | .onPeerStatus _ _ _ => .done
  | .updateLocalHead _ => .done
  | .pollHeaderRequests => .headerRequests engine.pollHeaderRequests.1
  | .onHeadersReceived headers => .result (engine.onHeadersReceived headers).1
  | .pollBodyRequests => .bodyRequests engine.pollBodyRequests.1
  | .onBodiesReceived hashes => .result (engine.onBodiesReceived hashes).1
  | .verifyChain => .result engine.verifyChain.1
  | .tick order => .results (engine.tick order).1
  | .drainImportReady => .importReady engine.drainImportReady.1

/-- One call; it always returns. -/
def call (op : SyncOp) (engine : SyncEngine) : Option (SyncReply × SyncEngine) :=
  some (engine.reply op, engine.run op)

theorem final_call (ops : List SyncOp) (engine : SyncEngine)
    : CallTrace.final call ops engine = engine.runAll ops := by
  unfold runAll
  induction ops generalizing engine with
  | nil => rfl
  | cons op rest ih => exact ih (engine.run op)

theorem runAll_append (earlier later : List SyncOp) (engine : SyncEngine)
    : engine.runAll (earlier ++ later) = (engine.runAll earlier).runAll later :=
  List.foldl_append

theorem call_returns (op : SyncOp) (engine : SyncEngine)
    : ∃ reply next, call op engine = some (reply, next) :=
  ⟨engine.reply op, engine.run op, rfl⟩

/-- A call of a run, from the state it finds. -/
theorem turn_of_call {turn : ReturnedCall SyncEngine SyncOp SyncReply}
    (returns : call turn.op turn.before = some (turn.reply, turn.after))
    : turn.reply = turn.before.reply turn.op ∧ turn.after = turn.before.run turn.op := by
  obtain ⟨sameReply, sameAfter⟩ := Prod.mk.inj (Option.some.inj returns)
  exact ⟨sameReply.symm, sameAfter.symm⟩

/-- Every call of a run meets a condition on the state it finds. -/
def Throughout (condition : SyncEngine → SyncOp → Prop) (ops : List SyncOp) (engine : SyncEngine)
    : Prop :=
  ∀ turn ∈ CallTrace.calls call ops engine, condition turn.before turn.op

theorem throughout_nil (condition : SyncEngine → SyncOp → Prop) (engine : SyncEngine)
    : Throughout condition [] engine :=
  fun _ member => absurd member List.not_mem_nil

theorem Throughout.cons {condition : SyncEngine → SyncOp → Prop} {op : SyncOp}
    {rest : List SyncOp} {engine : SyncEngine} (first : condition engine op)
    (later : Throughout condition rest (engine.run op))
    : Throughout condition (op :: rest) engine :=
  List.forall_mem_cons.mpr ⟨first, later⟩

-----------------------------------------------------------------------------------------
-- What has been released
-----------------------------------------------------------------------------------------

/-- The concatenation of all lists that the calls of a run have drained. -/
def drainedBy (past : List (ReturnedCall SyncEngine SyncOp SyncReply)) : List Nat :=
  past.flatMap (fun turn => turn.reply.drained)

/-- The numbers that have been drained and those that wait to be. -/
def released (past : List (ReturnedCall SyncEngine SyncOp SyncReply)) (engine : SyncEngine)
    : List Nat :=
  drainedBy past ++ engine.importReady

/-- The numbers that an operation verifies. -/
def newlyVerified (engine : SyncEngine) : SyncOp → List Nat
  | .verifyChain =>
      if brokenAt engine.headers engine.headers.numbers = none then engine.headers.numbers
      else []
  | _ => []

/-- Verification releases an unbroken chain and leaves the engine alone otherwise. -/
theorem verifyChain_cases (engine : SyncEngine)
    : (brokenAt engine.headers engine.headers.numbers = none
        ∧ engine.headers.numbers ≠ []
        ∧ engine.verifyChain.2
          = { engine with
              headers :=
                engine.headers.modifyAll engine.headers.numbers
                  (fun header => { header with verified := true })
              importReady := engine.importReady ++ engine.headers.numbers
              state := .synced })
      ∨ (engine.newlyVerified .verifyChain = [] ∧ engine.verifyChain.2 = engine) := by
  unfold newlyVerified verifyChain
  cases listed : engine.headers.numbers with
  | nil =>
      right
      simp
  | cons first rest =>
      cases broken : brokenAt engine.headers (first :: rest) with
      | none =>
          left
          simp only [broken]
          exact ⟨trivial, List.cons_ne_nil first rest, trivial⟩
      | some atBlock =>
          right
          simp [broken]

/-- A status above the local head and above the target becomes the target; any other leaves the
engine alone.
-/
theorem onPeerStatus_cases (engine : SyncEngine) (peerId : String) (bestBlock : Nat)
    (bestHash : B256)
    : engine.onPeerStatus peerId bestBlock bestHash = engine
      ∨ (engine.localHead < bestBlock
        ∧ engine.target.all (fun target => bestBlock > target.bestBlock) = true
        ∧ engine.onPeerStatus peerId bestBlock bestHash
          = { engine with
              target := some { bestBlock, bestHash, peerId }
              state := if engine.state = .synced then .downloadingHeaders else engine.state }) := by
  unfold onPeerStatus
  split
  next => exact Or.inl rfl
  next above =>
    split
    next higher => exact Or.inr ⟨Nat.lt_of_not_le above, higher, rfl⟩
    next => exact Or.inl rfl

/-- A move of the local head drops the headers that it covers and, where it reaches the target,
the target; the rest stays.
-/
theorem updateLocalHead_cases (engine : SyncEngine) (newHead : Nat)
    : ∃ state target,
        engine.updateLocalHead newHead
          = { engine with
              localHead := newHead
              headers := engine.headers.eraseAll (engine.headers.numbers.filter (· ≤ newHead))
              state
              target }
        ∧ (state = engine.state ∧ target = engine.target ∨ state = .synced ∧ target = none) := by
  unfold updateLocalHead
  simp only
  split
  next none => exact ⟨engine.state, engine.target, rfl, Or.inl ⟨rfl, rfl⟩⟩
  next target found =>
    split
    next => exact ⟨.synced, none, rfl, Or.inr ⟨rfl, rfl⟩⟩
    next => exact ⟨engine.state, engine.target, rfl, Or.inl ⟨rfl, rfl⟩⟩

/-- Each call releases what it verifies, after everything that has been released. -/
theorem released_turn (past : List (ReturnedCall SyncEngine SyncOp SyncReply))
    {turn : ReturnedCall SyncEngine SyncOp SyncReply}
    (returns : call turn.op turn.before = some (turn.reply, turn.after))
    : released (past ++ [turn]) turn.after
      = released past turn.before ++ turn.before.newlyVerified turn.op := by
  obtain ⟨sameReply, sameAfter⟩ := turn_of_call returns
  obtain ⟨engine, op, reply, after⟩ := turn
  simp only at sameReply sameAfter ⊢
  subst sameReply sameAfter
  have splits
      : released (past ++ [⟨engine, op, engine.reply op, engine.run op⟩]) (engine.run op)
        = drainedBy past ++ (engine.reply op).drained ++ (engine.run op).importReady := by
    unfold released drainedBy
    rw [List.flatMap_append, List.flatMap_singleton]
  rw [splits]
  unfold released
  cases op with
  | banPeer peerId => simp [reply, run, banPeer, SyncReply.drained, newlyVerified]
  | onPeerStatus peerId bestBlock bestHash =>
      rcases engine.onPeerStatus_cases peerId bestBlock bestHash with same | ⟨_, _, same⟩
        <;> simp [reply, run, same, SyncReply.drained, newlyVerified]
  | updateLocalHead newHead =>
      obtain ⟨_, _, same, _⟩ := engine.updateLocalHead_cases newHead
      simp [reply, run, same, SyncReply.drained, newlyVerified]
  | pollHeaderRequests =>
      obtain ⟨_, _, frame⟩ := engine.pollHeaderRequests_frame
      simp [reply, run, frame, SyncReply.drained, newlyVerified]
  | onHeadersReceived headers =>
      have same : (engine.onHeadersReceived headers).2.importReady = engine.importReady := by
        cases headers <;> rfl
      simp [reply, run, same, SyncReply.drained, newlyVerified]
  | pollBodyRequests =>
      obtain ⟨_, _, frame⟩ := engine.pollBodyRequests_frame
      simp [reply, run, frame, SyncReply.drained, newlyVerified]
  | onBodiesReceived hashes =>
      have same : (engine.onBodiesReceived hashes).2.importReady = engine.importReady := rfl
      simp [reply, run, same, SyncReply.drained, newlyVerified]
  | verifyChain =>
      rcases engine.verifyChain_cases with ⟨unbroken, _, verified⟩ | ⟨none, same⟩
      · simp [reply, run, verified, SyncReply.drained, newlyVerified, unbroken]
      · simp [reply, run, same, SyncReply.drained, none]
  | tick order =>
      have same : (engine.tick order).2.importReady = engine.importReady := rfl
      simp [reply, run, same, SyncReply.drained, newlyVerified]
  | drainImportReady =>
      simp [reply, run, drainImportReady, SyncReply.drained, newlyVerified]

end SyncEngine

end VeloChain
