import VeloChain.Node.LosslessHost
import VeloChain.Node.Receipts

/-! The positions and gas sums of stored receipts.
Receipts are numbered in the order of the passes, EVM transactions first, while the
transaction index follows the body. The gas of a game action with a payload is counted by
the partition and once more by the game pass.
-/

namespace VeloChain

-----------------------------------------------------------------------------------------
-- Numbered receipts with running sums
-----------------------------------------------------------------------------------------

/-- The gas of all receipts together, in the arithmetic of the field. -/
def gasTotal (receipts : List TransactionReceipt) : UInt64 :=
  receipts.foldl (fun gas receipt => gas + receipt.gasUsed) 0

theorem gasTotal_concat (receipts : List TransactionReceipt) (receipt : TransactionReceipt)
    : gasTotal (receipts ++ [receipt]) = gasTotal receipts + receipt.gasUsed := by
  simp only [gasTotal, List.foldl_append, List.foldl_cons, List.foldl_nil]

/-- The sum up to the first receipt is its gas. -/
theorem gasTotal_first {receipts : List TransactionReceipt} {receipt : TransactionReceipt}
    (first : receipts[0]? = some receipt)
    : gasTotal (receipts.take 1) = receipt.gasUsed := by
  cases receipts with
  | nil => simp at first
  | cons head rest =>
      obtain rfl : head = receipt := by simpa using first
      exact UInt64.zero_add _

/-- The receipts are numbered from zero on, and their sums run on from `base`. -/
def Tallied (base : UInt64) (receipts : List TransactionReceipt) : Prop :=
  ∀ i (bound : i < receipts.length),
    receipts[i].index = UInt32.ofNat i
    ∧ receipts[i].cumulativeGasUsed = base + gasTotal (receipts.take (i + 1))

theorem Tallied.concat {base : UInt64} {receipts : List TransactionReceipt}
    (tallied : Tallied base receipts) {receipt : TransactionReceipt}
    (index : receipt.index = UInt32.ofNat receipts.length)
    (gas : receipt.cumulativeGasUsed = base + gasTotal (receipts ++ [receipt]))
    : Tallied base (receipts ++ [receipt]) := by
  intro i bound
  rw [List.length_append, List.length_singleton] at bound
  by_cases earlier : i < receipts.length
  · rw [List.getElem_append_left earlier, List.take_append_of_le_length earlier]
    exact tallied i earlier
  · obtain rfl : i = receipts.length := by omega
    rw [List.getElem_append_right (Nat.le_refl _), List.take_of_length_le (by simp)]
    simpa only [Nat.sub_self, List.getElem_singleton] using And.intro index gas

namespace Execution

variable {F : Type} {host : Host F} {db : Database} {block : Block} {base : UInt64}
  {before after : Execution}

/-- The receipts of a pass are tallied, and its gas counter is their sum. -/
structure Tallies (base : UInt64) (execution : Execution) : Prop where
  receipts : Tallied base execution.receipts
  counter : execution.cumulativeGas = base + gasTotal execution.receipts

/-- A receipt whose gas the counter has just taken up continues the tally. -/
theorem Tallies.pushReceipt (tallies : Tallies base before) (tx : SignedTransaction)
    (success : Bool) (gasUsed : UInt64) (contractAddress : Option Address)
    (logs : List ReceiptLog) (receipts : after.receipts = before.receipts)
    (counter : after.cumulativeGas = before.cumulativeGas + gasUsed)
    : Tallies base (after.pushReceipt block tx success gasUsed contractAddress logs) := by
  have sum : after.cumulativeGas = base + (gasTotal before.receipts + gasUsed) := by
    rw [counter, tallies.counter, UInt64.add_assoc]
  unfold Execution.pushReceipt
  rw [receipts]
  constructor
  · exact tallies.receipts.concat rfl (sum.trans (by rw [gasTotal_concat]))
  · exact sum.trans (by rw [gasTotal_concat])

/-- A turn of the EVM pass continues the tally. -/
theorem Tallies.executeEvmTx (tallies : Tallies base before) (tx : SignedTransaction)
    : Tallies base (Execution.executeEvmTx host db block tx before).2 := by
  unfold Execution.executeEvmTx
  cases tx.sender host.crypto with
  | error e => exact tallies
  | ok sender =>
      rcases read : before.state.getNonce host.account db sender with ⟨_ | nonce, state⟩
      · simp only [read]
        exact ⟨tallies.receipts, tallies.counter⟩
      · simp only [read]
        split
        next => exact tallies.pushReceipt tx _ _ _ _ rfl (UInt64.add_zero _).symm
        next =>
          rcases before.evm.executeTx host.crypto host.revm tx with ⟨e | outcome, evm⟩
          · exact tallies.pushReceipt tx _ _ _ _ rfl (UInt64.add_zero _).symm
          · exact tallies.pushReceipt tx _ _ _ _ rfl rfl

/-- A turn of the game pass continues the tally. -/
theorem Tallies.processGameTx (tallies : Tallies base before) (tx : SignedTransaction)
    : Tallies base (Execution.processGameTx host db block tx before).2 := by
  unfold Execution.processGameTx
  split
  next =>
    cases tx.sender host.crypto with
    | error e => exact tallies
    | ok sender =>
        rcases read : before.state.getNonce host.account db sender with ⟨_ | nonce, state⟩
        · simp only [read]
          exact ⟨tallies.receipts, tallies.counter⟩
        · simp only [read]
          exact tallies.pushReceipt tx _ _ _ _ rfl rfl
  next => exact tallies

/-- Loading accounts leaves the gas counter as it is. -/
theorem start_cumulativeGas (evmTxs : List SignedTransaction) (gasUsed : UInt64)
    (evm : EvmExecutor) (state : WorldState)
    : (start host db evmTxs gasUsed evm state).cumulativeGas = gasUsed := by
  unfold start
  suffices loads
      : ∀ (x : Execution),
          (evmTxs.foldl (fun execution tx => execution.loadTx host db tx) x).cumulativeGas
            = x.cumulativeGas from loads _
  induction evmTxs with
  | nil => exact fun _ => rfl
  | cons tx rest ih =>
      intro x
      rw [List.foldl_cons, ih]
      unfold loadTx
      cases tx.sender host.crypto <;> cases tx.transaction.to <;> rfl

end Execution

-----------------------------------------------------------------------------------------
-- What the passes of a block begin and end with
-----------------------------------------------------------------------------------------

namespace Partition

/-- The gas of the partition is that of the payloads, each at the fixed amount. -/
theorem ofBlock_gas (crypto : Crypto) (block : Block)
    : (ofBlock crypto block).2.totalGasUsed
      = UInt64.ofNat (ofBlock crypto block).2.gameActions.length * gameActionGas := by
  let counted := fun (parts : Partition) =>
    parts.totalGasUsed = UInt64.ofNat parts.gameActions.length * gameActionGas
  refine Loop.run_invariant counted ?_ rfl
  intro tx _ parts held
  unfold addTx
  split
  next =>
    cases tx.gameAction with
    | none => exact held
    | some action =>
        cases tx.sender crypto with
        | error e => exact held
        | ok sender =>
            simp only [counted] at held ⊢
            rw [held, List.length_append, List.length_singleton, UInt64.ofNat_add,
              UInt64.add_mul]
            rfl
  next => exact held

/-- An accepted block has no payload exactly when none of its game actions carries one. -/
theorem payloads_eq_nil_iff {crypto : Crypto} {block : Block}
    (recovers : ∀ tx ∈ block.body.transactions, Recovers crypto tx)
    : payloads crypto block.body.transactions = []
      ↔ ∀ tx ∈ block.gameTxs, tx.gameAction = none := by
  rw [payloads, List.filterMap_eq_nil_iff]
  constructor
  · intro none_ tx member
    obtain ⟨listed, isGame⟩ := List.mem_filter.mp member
    by_contra carries
    obtain ⟨action, carried⟩ := Option.ne_none_iff_exists'.mp carries
    obtain ⟨sender, recovered⟩ := recovers tx listed isGame (by simp [carried])
    simpa [payload, isGame, carried, recovered] using none_ tx listed
  · intro none_ tx listed
    unfold payload
    split
    next isGame => rw [none_ tx (List.mem_filter.mpr ⟨listed, isGame⟩)]
    next => rfl

end Partition

-----------------------------------------------------------------------------------------
-- Receipts and index entries under distinct hashes
-----------------------------------------------------------------------------------------

namespace Database

variable {F : Type} {host : Host F} {db : Database} {blockHash : B256}

/-- Receipts of other transactions are left as they are. -/
theorem getReceipt_storeReceipts_of_ne {receipts : List TransactionReceipt} {txHash : B256}
    (absent : txHash ∉ receipts.map TransactionReceipt.txHash)
    : (Chain.storeReceipts host blockHash receipts db).getReceipt txHash
      = db.getReceipt txHash := by
  unfold Chain.storeReceipts
  induction receipts generalizing db with
  | nil => rfl
  | cons receipt rest ih =>
      rw [List.map_cons, List.mem_cons, not_or] at absent
      obtain ⟨other, later⟩ := absent
      rw [List.foldl_cons, ih later]
      simp only [getReceipt, getCf, putReceipt, contents_putCf, hashSlice_inj, other, and_false,
        if_false]

/-- Under distinct hashes, every receipt is found as it was stored. -/
theorem getReceipt_storeReceipts {receipts : List TransactionReceipt}
    (distinct : (receipts.map TransactionReceipt.txHash).Nodup)
    {receipt : TransactionReceipt} (member : receipt ∈ receipts)
    : (Chain.storeReceipts host blockHash receipts db).getReceipt receipt.txHash
      = some (host.receiptJson { receipt with blockHash }) := by
  induction receipts generalizing db with
  | nil => simp at member
  | cons first rest ih =>
      obtain ⟨fresh, distinct⟩ := List.nodup_cons.mp distinct
      rcases List.mem_cons.mp member with rfl | later
      · refine (getReceipt_storeReceipts_of_ne fresh).trans ?_
        simp only [getReceipt, getCf, putReceipt, contents_putCf, and_self, if_true]
      · exact ih distinct later

variable {codecs : BlockCodecs}

/-- The index entries of other transactions are left as they are. -/
theorem getCf_putTransactionIndex_of_ne {index : Nat} {txs : List SignedTransaction}
    {txHash : B256} (absent : txHash ∉ txs.map SignedTransaction.hash)
    : (putTransactionIndex codecs blockHash index txs db).getCf .transactions (hashSlice txHash)
      = db.getCf .transactions (hashSlice txHash) := by
  induction txs generalizing index db with
  | nil => rfl
  | cons tx rest ih =>
      rw [List.map_cons, List.mem_cons, not_or] at absent
      obtain ⟨other, later⟩ := absent
      rw [putTransactionIndex, ih later]
      simp only [getCf, contents_putCf, hashSlice_inj, other, and_false, if_false]

/-- Under distinct hashes, every transaction is indexed at its position. -/
theorem getCf_putTransactionIndex {first : Nat} {txs : List SignedTransaction}
    (distinct : (txs.map SignedTransaction.hash).Nodup) {i : Nat} {tx : SignedTransaction}
    (found : txs[i]? = some tx)
    : (putTransactionIndex codecs blockHash first txs db).getCf .transactions
        (hashSlice tx.hash)
      = some (codecs.txIndex.encode { blockHash, index := UInt32.ofNat (first + i) }) := by
  induction txs generalizing first i db with
  | nil => simp at found
  | cons head rest ih =>
      obtain ⟨fresh, distinct⟩ := List.nodup_cons.mp distinct
      cases i with
      | zero =>
          obtain rfl : head = tx := by simpa using found
          rw [putTransactionIndex, getCf_putTransactionIndex_of_ne fresh]
          simp only [getCf, contents_putCf, and_self, if_true, Nat.add_zero]
      | succ i =>
          rw [putTransactionIndex, ih distinct (by simpa using found)]
          congr 4
          omega

end Database

namespace Chain

variable {F : Type} [F32 F] {host : Host F} {order : BlockOrder F} {block : Block}
  {chain next : Chain F}

/-- The receipts and the index entries of the transactions of a block, as they are stored,
carry the positions in the body, and the gas of each receipt adds up the gas of the body so
far.
-/
def ReceiptsInBodyOrder (host : Host F) (block : Block) (db : Database) : Prop :=
  ∃ receipts : List TransactionReceipt,
    receipts.length = block.body.transactions.length
    ∧ ∀ (i : Nat) (tx : SignedTransaction) (receipt : TransactionReceipt),
        block.body.transactions[i]? = some tx
        → receipts[i]? = some receipt
        → db.getReceipt tx.hash = some (host.receiptJson receipt)
          ∧ receipt.index.toNat = i
          ∧ (∃ data entry,
              db.getCf .transactions (hashSlice tx.hash) = some data
              ∧ host.blocks.txIndex.decode data = .ok entry
              ∧ entry.index.toNat = i)
          ∧ receipt.cumulativeGasUsed = gasTotal (receipts.take (i + 1))

/-- What the passes of an accepted block leave is tallied from the gas of the payloads on. -/
theorem Accepted.tallied (accepted : Accepted host order block chain)
    : Tallied
        (UInt64.ofNat (Partition.payloads host.crypto block.body.transactions).length
          * gameActionGas)
        accepted.processed.receipts := by
  have gas := Partition.ofBlock_gas host.crypto block
  rw [accepted.ofBlock, (Partition.ofBlock_parts accepted.partitioned).2, List.length_map] at gas
  rw [← gas]
  have start : (chain.evmStart host block).Tallies accepted.parts.totalGasUsed := by
    have empty : (chain.evmStart host block).receipts = [] := Execution.start_receipts _ _ _ _
    constructor
    · rw [empty]
      exact fun i bound => absurd bound (Nat.not_lt_zero i)
    · rw [empty, evmStart, accepted.ofBlock, Execution.start_cumulativeGas]
      exact (UInt64.add_zero _).symm
  have executed : accepted.executed.Tallies accepted.parts.totalGasUsed := by
    rw [← show _ = accepted.executed from congrArg Prod.snd accepted.evmEnd_eq.1]
    exact Loop.run_invariant _ (fun tx _ _ tallies => tallies.executeEvmTx tx) start
  have processed : accepted.processed.Tallies accepted.parts.totalGasUsed := by
    rw [← show _ = accepted.processed from congrArg Prod.snd accepted.processes]
    exact Loop.run_invariant _ (fun tx _ _ tallies => tallies.processGameTx tx)
      ⟨executed.receipts, executed.counter⟩
  exact processed.receipts

/-- The transactions of a block in the order of the passes are those of its body. -/
theorem passes_perm (block : Block)
    : (block.evmTxs ++ block.gameTxs).Perm block.body.transactions :=
  List.perm_append_comm.trans (List.filter_append_perm _ _)

/-- Under distinct hashes, the receipts are found as the passes left them, one for each
transaction in the order of the passes.
-/
theorem Accepted.getReceipt (accepted : Accepted host order block chain)
    (distinct : (block.body.transactions.map SignedTransaction.hash).Nodup) {i : Nat}
    {tx : SignedTransaction} (found : (block.evmTxs ++ block.gameTxs)[i]? = some tx)
    : ∃ receipt,
        accepted.processed.receipts[i]? = some receipt
        ∧ accepted.result.db.getReceipt tx.hash
          = some (host.receiptJson { receipt with blockHash := block.hash host.crypto }) := by
  have keys := accepted.receipts_txHash
  have here := congrArg (fun hashes => hashes[i]?) keys
  simp only [List.getElem?_map, found, Option.map_some, Option.map_eq_some_iff] at here
  obtain ⟨receipt, listed, key⟩ := here
  refine ⟨receipt, listed, ?_⟩
  rw [← key]
  refine Database.getReceipt_storeReceipts ?_ (List.mem_of_getElem? listed)
  rw [keys]
  exact ((passes_perm block).map _).nodup_iff.mpr distinct

/-- Under distinct hashes, every transaction is indexed at its position in the body. -/
theorem Accepted.transactionIndex (accepted : Accepted host order block chain)
    (distinct : (block.body.transactions.map SignedTransaction.hash).Nodup) {i : Nat}
    {tx : SignedTransaction} (found : block.body.transactions[i]? = some tx)
    : accepted.result.db.getCf .transactions (hashSlice tx.hash)
      = some
          (host.blocks.txIndex.encode
            { blockHash := block.hash host.crypto, index := UInt32.ofNat i }) := by
  have written := @contents_finalize F host order block accepted.processed accepted.world chain
    .transactions (by decide) (by decide)
  rw [Accepted.result, Database.getCf, written,
    Database.contents_putLatestBlockNumber (by decide)]
  refine (Database.getCf_putTransactionIndex distinct found).trans ?_
  rw [Nat.zero_add]

/-- The sum of gas does not depend on the hash of the block. -/
theorem gasTotal_map_blockHash (blockHash : B256) (receipts : List TransactionReceipt)
    : gasTotal (receipts.map (fun receipt => { receipt with blockHash }))
      = gasTotal receipts := by
  simp only [gasTotal, List.foldl_map]

/-- Payloads, of which a block of this length has few enough, cost nothing only if there are
none.
-/
theorem eq_zero_of_payloadGas {count : Nat} (few : count ≤ 2 ^ 32)
    (free : UInt64.ofNat count * gameActionGas = 0)
    : count = 0 := by
  have fixed : gameActionGas.toNat = 21000 := rfl
  have gas : (UInt64.ofNat count * gameActionGas).toNat = count * 21000 := by
    rw [UInt64.toNat_mul, UInt64.toNat_ofNat', fixed]
    omega
  rw [free, UInt64.toNat_zero] at gas
  omega

/-- Where the body has the order of the passes and no payload is counted twice, positions and
sums are those of the body.
-/
theorem Accepted.receiptsInBodyOrder (accepted : Accepted host order block chain)
    (distinct : (block.body.transactions.map SignedTransaction.hash).Nodup)
    (indexed : host.blocks.txIndex.RoundTrips)
    (sorted : block.body.transactions = block.evmTxs ++ block.gameTxs)
    (uncounted : ∀ tx ∈ block.gameTxs, tx.gameAction = none)
    (bounded : block.body.transactions.length ≤ 2 ^ 32)
    : ReceiptsInBodyOrder host block accepted.result.db := by
  have tallied := accepted.tallied
  rw [(Partition.payloads_eq_nil_iff
    (Partition.ofBlock_ok_iff.mp (congrArg Prod.fst accepted.partitioned))).mpr uncounted]
    at tallied
  have size := congrArg List.length accepted.receipts_txHash
  rw [List.length_map, List.length_map, ← sorted] at size
  refine ⟨accepted.processed.receipts.map
    (fun receipt => { receipt with blockHash := block.hash host.crypto }), by simpa using size, ?_⟩
  intro i tx receipt found listed
  obtain ⟨kept, left, stored⟩ := accepted.getReceipt distinct (sorted ▸ found)
  rw [List.getElem?_map, left, Option.map_some, Option.some.injEq] at listed
  obtain ⟨bound, rfl⟩ := List.getElem?_eq_some_iff.mp left
  obtain ⟨index, gas⟩ := tallied i bound
  have small : (UInt32.ofNat i).toNat = i := by
    rw [UInt32.toNat_ofNat']
    omega
  subst listed
  refine ⟨stored, by rw [index, small], ⟨_, _, accepted.transactionIndex distinct found,
    indexed _, small⟩, ?_⟩
  rw [← List.map_take, gasTotal_map_blockHash, gas]
  exact UInt64.zero_add _

/-- Positions and sums that are those of the body tell the order of the body, that no payload
was counted, and that every position fits its field.
-/
theorem ReceiptsInBodyOrder.sorted {accepted : Accepted host order block chain}
    (inOrder : ReceiptsInBodyOrder host block accepted.result.db)
    (distinct : (block.body.transactions.map SignedTransaction.hash).Nodup)
    (injective : Function.Injective host.receiptJson)
    : block.body.transactions = block.evmTxs ++ block.gameTxs
      ∧ (∀ tx ∈ block.gameTxs, tx.gameAction = none)
      ∧ block.body.transactions.length ≤ 2 ^ 32 := by
  obtain ⟨receipts, size, inOrder⟩ := inOrder
  have here {i : Nat} (bound : i < block.body.transactions.length) :=
    inOrder i _ _ (List.getElem?_eq_getElem bound) (List.getElem?_eq_getElem (size ▸ bound))
  have bounded : block.body.transactions.length ≤ 2 ^ 32 := by
    by_contra long
    have last : 2 ^ 32 < receipts.length := size ▸ Nat.lt_of_not_le long
    have large := (here (Nat.lt_of_not_le long)).2.1
    have small := UInt32.toNat_lt receipts[2 ^ 32].index
    omega
  have lengths : (block.evmTxs ++ block.gameTxs).length = block.body.transactions.length :=
    (passes_perm block).length_eq
  have count := congrArg List.length accepted.receipts_txHash
  rw [List.length_map, List.length_map, lengths] at count
  -- the receipt at a position is the one the passes left there, so the transaction is, too
  have same {i : Nat} (bound : i < block.body.transactions.length)
      : ∃ kept,
          accepted.processed.receipts[i]? = some kept
          ∧ receipts[i] = { kept with blockHash := block.hash host.crypto }
          ∧ (block.evmTxs ++ block.gameTxs)[i]? = some block.body.transactions[i] := by
    obtain ⟨stored, index, _⟩ := here bound
    obtain ⟨j, found⟩ := List.mem_iff_getElem?.mp
      ((passes_perm block).symm.mem_iff.mp (List.getElem_mem bound))
    obtain ⟨kept, listed, written⟩ := accepted.getReceipt distinct found
    have same := injective (Option.some.inj (stored.symm.trans written))
    obtain ⟨within, atIndex⟩ := List.getElem?_eq_some_iff.mp listed
    have position := (accepted.tallied j within).1
    rw [atIndex] at position
    rw [same, position, UInt32.toNat_ofNat'] at index
    obtain rfl : j = i := by omega
    exact ⟨kept, listed, same, found⟩
  have sorted : block.body.transactions = block.evmTxs ++ block.gameTxs := by
    refine List.ext_getElem lengths.symm (fun i bound bound' => ?_)
    obtain ⟨_, _, _, found⟩ := same bound
    exact (List.getElem?_eq_some_iff.mp found).2.symm
  refine ⟨sorted, ?_, bounded⟩
  have recovers := Partition.ofBlock_ok_iff.mp (congrArg Prod.fst accepted.partitioned)
  refine (Partition.payloads_eq_nil_iff recovers).mp ?_
  rcases Nat.eq_zero_or_pos block.body.transactions.length with none_ | nonempty
  · rw [List.length_eq_zero_iff.mp none_]
    rfl
  · obtain ⟨kept, listed, same, _⟩ := same nonempty
    have gas := (here nonempty).2.2.2
    rw [gasTotal_first (List.getElem?_eq_getElem (size ▸ nonempty)), same] at gas
    obtain ⟨within, atIndex⟩ := List.getElem?_eq_some_iff.mp listed
    have counted := (accepted.tallied 0 within).2
    rw [gasTotal_first listed, atIndex] at counted
    have free := UInt64.right_eq_add.mp (gas.symm.trans counted)
    have few := List.length_filterMap_le (Partition.payload host.crypto) block.body.transactions
    exact List.length_eq_zero_iff.mp (eq_zero_of_payloadGas (few.trans bounded) free)

/-- The stored receipts of an applied block follow its body exactly when the EVM transactions
stand before the game actions, no game action carries a payload, and the positions fit into 32
bits.
-/
theorem receiptsInBodyOrder_iff
    (distinct : (block.body.transactions.map SignedTransaction.hash).Nodup)
    (injective : Function.Injective host.receiptJson)
    (indexed : host.blocks.txIndex.RoundTrips)
    (applied : chain.applyBlock host order block = (.ok (), next))
    : ReceiptsInBodyOrder host block next.db
      ↔ block.body.transactions = block.evmTxs ++ block.gameTxs
        ∧ (∀ tx ∈ block.gameTxs, tx.gameAction = none)
        ∧ block.body.transactions.length ≤ 2 ^ 32 := by
  obtain ⟨accepted, rfl⟩ := applyBlock_ok_iff.mp applied
  constructor
  · exact fun inOrder => inOrder.sorted distinct injective
  · rintro ⟨sorted, uncounted, bounded⟩
    exact accepted.receiptsInBodyOrder distinct indexed sorted uncounted bounded

section Interleaved

/-- A chain on which account 9 can pay for its transactions, on a host that loses nothing. -/
def payingChain : Chain Milli := .reference .lossless .reference 9 100000

/-- A block of the given transactions, which carry the numbers from one on as hashes. -/
def labeled (txs : List SignedTransaction) : Block :=
  Block.following (.genesis 0)
    (txs.zipIdx.map (fun (tx, i) => { tx with hash := BitVec.ofNat 256 (i + 1) }))

/-- Two transfers of key 9. -/
def transfersOnly : Block := labeled [.transfer 9 1 0 4 5, .transfer 9 1 1 4 5]

/-- A game action of key 9 before a transfer. -/
def actionInFront : Block := labeled [.action 9 1 0 (.move 1000 0 0), .transfer 9 1 1 4 5]

theorem applied_of_ok {block : Block}
    (ok : (payingChain.applyBlock .lossless (.ascending Milli) block).1 = .ok ())
    : payingChain.applyBlock .lossless (.ascending Milli) block
      = (.ok (), (payingChain.applyBlock .lossless (.ascending Milli) block).2) :=
  Prod.ext ok rfl

theorem receiptsInBodyOrder_transfersOnly
    : ReceiptsInBodyOrder .lossless transfersOnly
        (payingChain.applyBlock .lossless (.ascending Milli) transfersOnly).2.db :=
  (receiptsInBodyOrder_iff (by decide +kernel) Host.lossless_receipts Host.lossless_index
    (applied_of_ok (by decide +kernel))).mpr
      ⟨by decide +kernel, by decide +kernel, by decide⟩

/-- The transfer of this block is run before the game action that precedes it. -/
theorem receiptsInBodyOrder_fails_on_actionInFront
    : ¬ ∀ (host : Host Milli) (order : BlockOrder Milli) (block : Block)
          (chain next : Chain Milli),
        (block.body.transactions.map SignedTransaction.hash).Nodup
        → Function.Injective host.receiptJson
        → host.blocks.txIndex.RoundTrips
        → chain.applyBlock host order block = (.ok (), next)
        → ReceiptsInBodyOrder host block next.db := by
  intro claimed
  have applied := @applied_of_ok actionInFront (by decide +kernel)
  obtain ⟨accepted, result⟩ := applyBlock_ok_iff.mp applied
  have inOrder := claimed _ _ _ _ _ (by decide +kernel) Host.lossless_receipts
    Host.lossless_index applied
  rw [result] at inOrder
  exact absurd (inOrder.sorted (by decide +kernel) Host.lossless_receipts).1 (by decide +kernel)

end Interleaved

end Chain

end VeloChain
