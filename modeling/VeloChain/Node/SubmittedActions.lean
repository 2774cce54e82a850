import VeloChain.GameEngine.Players
import VeloChain.Node.Acceptance
import VeloChain.Node.Reference
import VeloChain.Rpc.GameApi
import VeloChain.TxPool.PoolIndex

/-! What the game actions of a session do to the world.
The node signs a submitted action with a key made for it. So the sender of the transaction is no
player of the session: the action reaches the world as one of an address that nobody knows.
-/

namespace VeloChain

/-- An action submitted by a client, and the key the node makes for it. -/
structure Submission where
  sent : SdkAction
  secret : B256
  keypair : Keypair
  deriving DecidableEq

namespace Submission

variable (crypto : Crypto) (chainId : UInt64)

/-- The keypair belongs to its secret. -/
def Made (submission : Submission) : Prop :=
  Keypair.fromSecretKey crypto submission.secret = .ok submission.keypair

/-- The text by which the world knows the sender. -/
def address (submission : Submission) : String := debugAddress submission.keypair.address

/-- What the game engine is told of a submitted action. -/
def entry (submission : Submission) : Option (String × GameAction) :=
  submission.sent.arrives.map (fun action => (submission.address, action))

theorem fst_of_entry {submission : Submission} {entry : String × GameAction}
    (isEntry : submission.entry = some entry)
    : entry.1 = submission.address := by
  obtain ⟨action, -, rfl⟩ := Option.map_eq_some_iff.mp isEntry
  rfl

/-- The transaction that the node makes of a submitted action. -/
def signed (submission : Submission) : Except ErrorObject SignedTransaction :=
  signAction crypto submission.keypair chainId submission.sent.request.1
    submission.sent.request.2

variable {crypto} {chainId}

/-- The node refuses an action that does not arrive, and otherwise signs a game action with the
key that it has made.
-/
theorem signed_cases (sound : crypto.SignsRecoverably) {submission : Submission}
    (made : submission.Made crypto)
    : (submission.sent.arrives = none
        ∧ submission.signed crypto chainId
          = .error (invalidParams "Missing target_entity_id"))
      ∨ ∃ action tx,
          submission.sent.arrives = some action
          ∧ submission.signed crypto chainId = .ok tx
          ∧ tx.transaction = Transaction.newGameAction chainId 0 action
          ∧ tx.sender crypto = .ok submission.keypair.address := by
  have parsed := SdkAction.parse_request submission.sent
  cases arrives : submission.sent.arrives with
  | none =>
      rw [arrives] at parsed
      exact .inl ⟨rfl, by simp only [signed, signAction, parsed]⟩
  | some action =>
      rw [arrives] at parsed
      obtain ⟨tx, signs, carries, recovered⟩ :=
        sound.sign made (Transaction.newGameAction chainId 0 action)
      exact .inr ⟨action, tx, rfl, by simp only [signed, signAction, parsed, signs], carries,
        recovered⟩

/-- The game engine is told the action of a signed submission, under the address of its key. -/
theorem payload_of_signed (sound : crypto.SignsRecoverably) {submission : Submission}
    (made : submission.Made crypto) {tx : SignedTransaction}
    (signed : submission.signed crypto chainId = .ok tx)
    : tx.isGameAction = true
      ∧ Partition.Recovers crypto tx
      ∧ ∃ payload,
          Partition.payload crypto tx = some payload
          ∧ submission.entry = some payload.entry := by
  rcases @signed_cases crypto chainId sound submission made
    with ⟨-, refused⟩ | ⟨action, tx', arrives, signs, carries, recovered⟩
  · cases signed.symm.trans refused
  · obtain rfl := Except.ok.inj (signed.symm.trans signs)
    have isGame : tx.isGameAction = true := by
      rw [SignedTransaction.isGameAction, carries]
      rfl
    have carried : tx.gameAction = some action := by
      rw [SignedTransaction.gameAction, carries]
      rfl
    refine ⟨isGame, fun _ _ => ⟨_, recovered⟩,
      { tx, sender := submission.keypair.address, action }, ?_, ?_⟩
    · simp only [Partition.payload, isGame, if_true, carried, recovered]
    · rw [entry, arrives]
      rfl

variable (crypto) (chainId)

/-- The pool after submissions, one after another; a refused one leaves it as it is. -/
def submitAll (submissions : List Submission) (pool : TransactionPool) : TransactionPool :=
  submissions.foldl
    (fun pool submission =>
      (submitAction crypto submission.keypair chainId submission.sent.request.1
        submission.sent.request.2 pool).2)
    pool

variable {crypto} {chainId}

/-- A submission brings at most its own transaction to the pool. -/
theorem lookup_submitAction {keypair : Keypair} {actionType : String} {params : Params}
    {pool : TransactionPool} {hash : B256} {tx : SignedTransaction}
    (found
      : (submitAction crypto keypair chainId actionType params pool).2.byHash.lookup hash
        = some tx)
    : pool.byHash.lookup hash = some tx
      ∨ signAction crypto keypair chainId actionType params = .ok tx := by
  unfold submitAction at found
  cases signs : signAction crypto keypair chainId actionType params with
  | error e =>
      rw [signs] at found
      exact .inl found
  | ok signed =>
      rw [signs] at found
      rcases added : pool.addTransaction crypto signed with ⟨e | accepted, after⟩
      · have same : after = pool := by
          have kept := TransactionPool.addTransaction_error (e := e) (by rw [added])
          rwa [added] at kept
        simp only [added, same] at found
        exact .inl found
      · obtain ⟨sender, -, -, -, -, -, rfl⟩ := TransactionPool.addTransaction_ok_iff.mp added
        simp only [added, FinMap.lookup_insert_eq] at found
        split at found
        · exact .inr (congrArg Except.ok (Option.some.inj found))
        · exact .inl found

/-- A transaction of the pool was there before, or is signed from a submission. -/
theorem mem_submitAll {submissions : List Submission} {pool : TransactionPool} {hash : B256}
    {tx : SignedTransaction}
    (found : (submitAll crypto chainId submissions pool).byHash.lookup hash = some tx)
    : pool.byHash.lookup hash = some tx
      ∨ ∃ submission ∈ submissions, submission.signed crypto chainId = .ok tx := by
  induction submissions using List.reverseRecOn generalizing hash tx with
  | nil => exact .inl found
  | append_singleton submissions submission ih =>
      rw [submitAll, List.foldl_append, List.foldl_cons, List.foldl_nil, ← submitAll] at found
      rcases lookup_submitAction found with before | signs
      · refine (ih before).imp id (fun ⟨earlier, member, signs⟩ => ?_)
        exact ⟨earlier, List.mem_append_left _ member, signs⟩
      · exact .inr ⟨submission, by simp, signs⟩

/-- The game engine is told of the submissions of a block in its order. -/
theorem parts_of_signed (sound : crypto.SignsRecoverably) {block : Block}
    {submissions : List Submission} (made : ∀ submission ∈ submissions, submission.Made crypto)
    (signed
      : List.Forall₂ (fun submission tx => submission.signed crypto chainId = .ok tx) submissions
          block.body.transactions)
    : ∃ parts,
        Partition.ofBlock crypto block = (.ok (), parts)
        ∧ parts.evmTxs = []
        ∧ List.Forall₂ (fun submission told => submission.entry = some told) submissions
            parts.gameActions := by
  have all : (∀ tx ∈ block.body.transactions,
        tx.isGameAction = true ∧ Partition.Recovers crypto tx)
      ∧ List.Forall₂ (fun submission told => submission.entry = some told) submissions
          ((Partition.payloads crypto block.body.transactions).map Payload.entry) := by
    generalize block.body.transactions = txs at signed ⊢
    unfold Partition.payloads
    induction signed with
    | nil => exact ⟨fun tx member => absurd member List.not_mem_nil, .nil⟩
    | @cons submission tx submissions txs signs _ ih =>
        obtain ⟨isGame, recovers, payload, carried, told⟩ :=
          payload_of_signed sound (made submission List.mem_cons_self) signs
        obtain ⟨others, rest⟩ :=
          ih (fun other member => made other (List.mem_cons_of_mem _ member))
        refine ⟨fun other member => ?_, ?_⟩
        · rcases List.mem_cons.mp member with rfl | later
          · exact ⟨isGame, recovers⟩
          · exact others other later
        · rw [List.filterMap_cons_some carried, List.map_cons]
          exact .cons told rest
  obtain ⟨recovers, told⟩ := all
  have partitioned : Partition.ofBlock crypto block
      = (.ok (), (Partition.ofBlock crypto block).2) :=
    Prod.ext (Partition.ofBlock_ok_iff.mpr (fun tx member => (recovers tx member).2)) rfl
  obtain ⟨evmTxs, gameActions⟩ := Partition.ofBlock_parts partitioned
  refine ⟨_, partitioned, evmTxs.trans ?_, gameActions ▸ told⟩
  refine List.filter_eq_nil_iff.mpr (fun tx member => ?_)
  simp [(recovers tx member).1]

theorem exists_of_mem_left {α β : Type} {R : α → β → Prop} {left : List α} {right : List β}
    (each : List.Forall₂ R left right) {a : α} (member : a ∈ left)
    : ∃ b ∈ right, R a b := by
  induction each with
  | nil => cases member
  | cons related _ ih =>
      rcases List.mem_cons.mp member with rfl | later
      · exact ⟨_, List.mem_cons_self, related⟩
      · obtain ⟨b, isRight, found⟩ := ih later
        exact ⟨b, List.mem_cons_of_mem _ isRight, found⟩

/-- Transactions that are signed from submissions, each from one, have a list of these. -/
theorem exists_submissions {submissions : List Submission} {txs : List SignedTransaction}
    (signed
      : ∀ tx ∈ txs, ∃ submission ∈ submissions, submission.signed crypto chainId = .ok tx)
    (once : txs.Nodup)
    : ∃ chosen,
        chosen.Nodup
        ∧ chosen ⊆ submissions
        ∧ List.Forall₂ (fun submission tx => submission.signed crypto chainId = .ok tx) chosen
            txs := by
  induction txs with
  | nil => exact ⟨[], .nil, List.nil_subset _, .nil⟩
  | cons tx rest ih =>
      obtain ⟨fresh, once⟩ := List.nodup_cons.mp once
      obtain ⟨submission, member, signs⟩ := signed tx List.mem_cons_self
      obtain ⟨chosen, nodup, among, each⟩ :=
        ih (fun other later => signed other (List.mem_cons_of_mem _ later)) once
      refine ⟨submission :: chosen, List.nodup_cons.mpr ⟨fun again => fresh ?_, nodup⟩,
        List.cons_subset.mpr ⟨member, among⟩, .cons signs each⟩
      obtain ⟨other, later, signsOther⟩ := exists_of_mem_left each again
      rwa [Except.ok.inj (signs.symm.trans signsOther)]

end Submission

namespace Chain

open GameWorld

/-- Whatever clients submit over the game API, a block of transactions that came to the pool in
this way moves no player and revives none: what was in the world only takes damage from attacks.
Every move makes a new player, and the actions stop only at an attack on an entity that is not
there.
-/
theorem submitted_actions {F : Type} [F32 F] {crypto : Crypto} (sound : crypto.SignsRecoverably)
    (chainId : UInt64) (maxSize : Nat) (submissions : List Submission)
    (made : ∀ submission ∈ submissions, submission.Made crypto)
    (distinct : (submissions.map (fun submission => submission.keypair.address)).Nodup)
    (block : Block)
    (pooled
      : ∀ tx ∈ block.body.transactions, ∃ hash,
          (Submission.submitAll crypto chainId submissions
            (.withMaxSize maxSize)).byHash.lookup hash = some tx)
    (once : block.body.transactions.Nodup)
    (ecs : EcsWorld F) (wellformed : ecs.Wellformed)
    (unknown
      : ∀ submission ∈ submissions, ∀ entity, ¬ ecs.IsPlayer submission.address entity)
    (order : Nat → EntityOrder F)
    : ∃ parts,
        Partition.ofBlock crypto block = (.ok (), parts)
        ∧ parts.evmTxs = []
        ∧ parts.gameActions.length = block.body.transactions.length
        ∧ (∀ entry ∈ parts.gameActions, ∃ submission ∈ submissions,
            submission.entry = some entry)
        ∧ ((∃ after,
              processActions order parts.gameActions ecs = (.ok (), after)
              ∧ ∀ entity, after.getComponents entity = afterActions parts.gameActions ecs entity)
          ∨ ∃ done address target rest after,
              parts.gameActions = done ++ (address, .attack target) :: rest
              ∧ processActions order parts.gameActions ecs
                = (.error (.entityNotFound target), after)
              ∧ (∀ entity, after.getComponents entity = afterActions done ecs entity)
              ∧ after.getComponents target = none) := by
  have signed : ∀ tx ∈ block.body.transactions,
      ∃ submission ∈ submissions, submission.signed crypto chainId = .ok tx := by
    intro tx member
    obtain ⟨hash, found⟩ := pooled tx member
    exact (Submission.mem_submitAll found).resolve_left (by simp [TransactionPool.withMaxSize])
  obtain ⟨chosen, nodup, among, each⟩ := Submission.exists_submissions signed once
  obtain ⟨parts, partitioned, evmTxs, told⟩ :=
    Submission.parts_of_signed sound (fun submission member => made submission (among member)) each
  have source : ∀ entry ∈ parts.gameActions, ∃ submission ∈ chosen,
      submission.entry = some entry :=
    fun entry member => Submission.exists_of_mem_left told.flip member
  have strangers : Strangers parts.gameActions ecs := by
    refine ⟨?_, fun entry member => ?_⟩
    · have addresses : parts.gameActions.map Prod.fst = chosen.map Submission.address := by
        rw [← List.forall₂_eq_eq_eq, List.forall₂_map_left_iff, List.forall₂_map_right_iff]
        exact told.flip.imp (fun entry submission isEntry => Submission.fst_of_entry isEntry)
      rw [addresses]
      refine nodup.map_on (fun left isLeft right isRight same => ?_)
      exact List.inj_on_of_nodup_map distinct (among isLeft) (among isRight)
        (debugAddress_inj.mp same)
    · obtain ⟨submission, isChosen, isEntry⟩ := source entry member
      rw [Submission.fst_of_entry isEntry]
      exact unknown submission (among isChosen)
  refine ⟨parts, partitioned, evmTxs, told.length_eq.symm.trans each.length_eq,
    fun entry member => ?_, ?_⟩
  · obtain ⟨submission, isChosen, isEntry⟩ := source entry member
    exact ⟨submission, among isChosen, isEntry⟩
  · rcases After.run wellformed strangers order
      with ⟨after, runs, done⟩ | ⟨done, address, target, rest, after, same, runs, all, gone⟩
    · exact .inl ⟨after, runs, done.components⟩
    · exact .inr ⟨done, address, target, rest, after, same, runs, all.components, gone⟩

/-- A session that moves to a height of one and a half. -/
def halfHeight : Submission :=
  { sent := .move (.integer 1) (.integer (-2)) .fraction, secret := 7, keypair := .reference }

/-- What the node makes of it. -/
def groundMove : SignedTransaction :=
  Transaction.signedWith 7 (.newGameAction 1 0 (.move 1 (-2) 0))

/-- A block with a single move, of a player that is made by it. -/
theorem submitted_actions_move
    : ∃ parts,
        Partition.ofBlock .disclosing (.new (.genesis 0) [groundMove]) = (.ok (), parts)
        ∧ parts.evmTxs = []
        ∧ parts.gameActions.length = 1
        ∧ (∀ entry ∈ parts.gameActions, ∃ submission ∈ [halfHeight],
            submission.entry = some entry)
        ∧ ((∃ after,
              processActions (TickOrder.ascending Milli).action
                  parts.gameActions .new
                = (.ok (), after)
              ∧ ∀ entity,
                  after.getComponents entity = afterActions parts.gameActions .new entity)
          ∨ ∃ done address target rest after,
              parts.gameActions = done ++ (address, .attack target) :: rest
              ∧ processActions (TickOrder.ascending Milli).action
                  parts.gameActions .new
                = (.error (.entityNotFound target), after)
              ∧ (∀ entity, after.getComponents entity = afterActions done .new entity)
              ∧ after.getComponents target = none) := by
  refine submitted_actions Crypto.disclosing_signsRecoverably 1 10 [halfHeight] ?_ ?_ _ ?_ ?_
    .new EcsWorld.wellformed_new ?_ _
  · intro submission member
    rw [List.mem_singleton.mp member]
    change Keypair.fromSecretKey .disclosing 7 = .ok .reference
    decide +kernel
  · simp
  · intro tx member
    rw [List.mem_singleton.mp member]
    exact ⟨groundMove.hash, by decide +kernel⟩
  · exact List.nodup_singleton _
  · intro submission _ entity linked
    simp [EcsWorld.IsPlayer, EcsWorld.hasComponent, EcsWorld.getComponents, EcsWorld.new] at linked

end Chain

end VeloChain
