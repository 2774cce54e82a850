import VeloChain.Lib.KeyedParts
import VeloChain.Node.BlockArchive
import VeloChain.Node.LosslessHost
import VeloChain.Rpc.Logs

/-! What log queries return of the blocks that were applied.
The topics of a filter are not read, data that is stored as an array is not returned, and the
logs of a transaction are those of the receipt that was stored last under its hash.
-/

namespace VeloChain

-----------------------------------------------------------------------------------------
-- What a filter asks for
-----------------------------------------------------------------------------------------

/-- The blocks, the address and the topics that a filter asks for. -/
structure LogQuery where
  fromBlock : UInt64
  toBlock : UInt64
  address : Option Address
  topics : List (Option B256)

/-- The topics that are asked for stand in their places; `none` asks for any topic. -/
def topicsMatch : List (Option B256) → List B256 → Bool
  | [], _ => true
  | _ :: _, [] => false
  | asked :: rest, topic :: later => asked.all (· == topic) && topicsMatch rest later

namespace LogQuery

def matchesAddress (query : LogQuery) (log : ReceiptLog) : Bool :=
  query.address.all (· == log.address)

def accepts (query : LogQuery) (log : ReceiptLog) : Bool :=
  query.matchesAddress log && topicsMatch query.topics log.topics

end LogQuery

/-- The topic of a text. -/
def parseTopic (text : String) : Option B256 :=
  match hexDecode (strip0x text) with
  | .error _ => none
  | .ok bytes => if bytes.length = 32 then some (hashFromSlice bytes) else none

/-- A bound of a block range: a number in hexadecimal digits, or the latest block. -/
def blockBound (latest : UInt64) (text : String) : Option UInt64 :=
  if text = "latest" then some latest else (parseU64Hex text).toOption

/-- A filter asks for at most 1000 blocks of a chain. -/
structure LogFilter.Denotes (format : LogFormat) (latest : UInt64) (filter : LogFilter)
    (query : LogQuery) : Prop where
  fromBlock : blockBound latest (filter.fromBlock.getD "0x0") = some query.fromBlock
  toBlock : blockBound latest (filter.toBlock.getD "latest") = some query.toBlock
  address : filter.address.mapM (parseAddress format) = .ok query.address
  topics : (filter.topics.getD []).mapM (Option.mapM parseTopic) = some query.topics
  inChain : query.toBlock ≤ latest
  short : query.toBlock.toNat + 1 - query.fromBlock.toNat ≤ 1000

/-- A transaction of a stored block with the receipt that the block gave it. -/
structure LoggedTx where
  place : LogPlace
  receipt : TransactionReceipt

/-- The transactions of a block in their order. -/
def AppliedBlock.loggedTxs (crypto : Crypto) (applied : AppliedBlock) : List LoggedTx :=
  applied.bodyReceipts.zipIdx.map (fun (receipt, txIndex) =>
    { place :=
        { blockNumber := applied.block.number
          blockHash := applied.block.hash crypto
          txHash := receipt.txHash
          txIndex }
      receipt })

/-- The transactions of the blocks at the given heights. -/
def loggedIn (crypto : Crypto) (log : List AppliedBlock) (numbers : List UInt64)
    : List LoggedTx :=
  numbers.flatMap (fun number =>
    (canonicalAt log number).toList.flatMap (AppliedBlock.loggedTxs crypto))

/-- The entry of a log, with its topics and its data. -/
def ReceiptLog.entry (place : LogPlace) (logIdx : Nat) (log : ReceiptLog) : RpcLog :=
  { address := debugAddress log.address
    topics := log.topics.map displayHash
    data := hexText log.data
    blockNumber := lowerHex place.blockNumber.toNat
    blockHash := displayHash place.blockHash
    transactionHash := displayHash place.txHash
    transactionIndex := lowerHex place.txIndex
    logIndex := lowerHex logIdx }

/-- The entries of the logs that are kept. -/
def entriesOf (keep : ReceiptLog → Option ReceiptLog) (place : LogPlace)
    (logs : List ReceiptLog) : List RpcLog :=
  logs.zipIdx.filterMap (fun (log, logIdx) => (keep log).map (ReceiptLog.entry place logIdx))

namespace LogQuery

/-- The transactions of the blocks that are asked for. -/
def range (query : LogQuery) (crypto : Crypto) (log : List AppliedBlock) : List LoggedTx :=
  loggedIn crypto log (blockNumbers query.fromBlock query.toBlock)

/-- The logs of the range that match, by block, transaction and log. -/
def expected (query : LogQuery) (crypto : Crypto) (log : List AppliedBlock) : List RpcLog :=
  (query.range crypto log).flatMap (fun tx =>
    entriesOf (Option.guard query.accepts) tx.place tx.receipt.logs)

/-- The logs that are found for a transaction: those of the receipt stored last under its hash,
or none where the bound of the range overflows.
-/
def visible (query : LogQuery) (crypto : Crypto) (log : List AppliedBlock) (txHash : B256)
    : List ReceiptLog :=
  if query.fromBlock.toNat + 1000 < 2 ^ 64 then
    ((latestReceipt crypto log txHash).map TransactionReceipt.logs).getD []
  else []

/-- What is returned of a log that is found: its address and its topics, if the address is the
one that is asked for.
-/
def shown (query : LogQuery) (log : ReceiptLog) : Option ReceiptLog :=
  if query.matchesAddress log then some { log with data := [] } else none

/-- The entries of the logs that are found. -/
def returned (query : LogQuery) (crypto : Crypto) (log : List AppliedBlock) : List RpcLog :=
  (query.range crypto log).flatMap (fun tx =>
    entriesOf query.shown tx.place (query.visible crypto log tx.place.txHash))

/-- What a query loses and adds does not concern these logs of a transaction and those found for
it: what matches has no data, no other topics are found at the address, and the logs that match
are found in their places.
-/
structure Unaffected (query : LogQuery) (own visible : List ReceiptLog) : Prop where
  noData : ∀ log ∈ own, query.accepts log → log.data = []
  topicsMet : ∀ log ∈ visible, query.matchesAddress log → topicsMatch query.topics log.topics
  kept
    : ∀ i : Nat,
        (visible[i]?.filter query.accepts).map (fun log => (log.address, log.topics))
        = (own[i]?.filter query.accepts).map (fun log => (log.address, log.topics))

end LogQuery

-----------------------------------------------------------------------------------------
-- Texts
-----------------------------------------------------------------------------------------

/-- Numbers have different digits, by induction on the first one. -/
theorem toDigits_sixteen_injective : Function.Injective (Nat.toDigits 16) := by
  have digit {m n : Nat} (small : m < 16) (other : n < 16) (same : m.digitChar = n.digitChar)
      : m = n := by
    have all : ∀ m n : Fin 16, m.val.digitChar = n.val.digitChar → m = n := by decide
    exact congrArg Fin.val (all ⟨m, small⟩ ⟨n, other⟩ same)
  intro m
  induction m using Nat.strong_induction_on with
  | _ m ih =>
      intro n same
      rw [Nat.toDigits_eq_if (by decide), Nat.toDigits_eq_if (n := n) (by decide)] at same
      split_ifs at same with small other other
      · exact digit small other (List.singleton_inj.mp same)
      · exact absurd (List.append_eq_singleton_iff.mp same.symm) (by simp)
      · exact absurd (List.append_eq_singleton_iff.mp same) (by simp)
      · obtain ⟨upper, last⟩ := List.append_inj' same rfl
        have low : m % 16 = n % 16 :=
          digit (Nat.mod_lt _ (by decide)) (Nat.mod_lt _ (by decide)) (List.singleton_inj.mp last)
        have high := ih (m / 16) (by omega) upper
        omega

/-- A prefix can be taken off two equal texts. -/
theorem text_append_left_cancel {start left right : String} (same : start ++ left = start ++ right)
    : left = right := by
  have lists := congrArg String.toList same
  rw [String.toList_append, String.toList_append] at lists
  exact String.toList_inj.mp (List.append_cancel_left lists)

theorem lowerHex_injective : Function.Injective lowerHex := fun _ _ same =>
  toDigits_sixteen_injective (String.ofList_injective (text_append_left_cancel same))

theorem hexText_injective : Function.Injective hexText :=
  fun _ _ same => hexEncode_injective (text_append_left_cancel same)

theorem displayHash_injective : Function.Injective displayHash :=
  fun _ _ same => hashSlice_inj.mp (hexText_injective same)

/-- The text of a topic in an entry asks for this topic in a filter. -/
theorem parseTopic_displayHash (topic : B256) : parseTopic (displayHash topic) = some topic := by
  have stripped : strip0x (displayHash topic) = hexEncode (hashSlice topic) := by
    rw [strip0x, displayHash, hexText, String.toList_append,
      show "0x".toList = ['0', 'x'] from rfl]
    exact String.ofList_toList
  rw [parseTopic, stripped, hexDecode_hexEncode]
  simp only [length_hashSlice, if_true, hashFromSlice_hashSlice]

theorem ReceiptLog.withoutData_eq_iff {log other : ReceiptLog}
    : { log with data := [] } = other
      ↔ other.data = [] ∧ log.address = other.address ∧ log.topics = other.topics := by
  cases log
  cases other
  simp only [ReceiptLog.mk.injEq]
  tauto

/-- Different logs have different entries at a place. -/
theorem ReceiptLog.entry_injective (place : LogPlace) (logIdx : Nat)
    : Function.Injective (ReceiptLog.entry place logIdx) := by
  intro left right same
  have address := debugAddress_inj.mp (congrArg RpcLog.address same)
  have topics := displayHash_injective.list_map (congrArg RpcLog.topics same)
  have data := hexText_injective (congrArg RpcLog.data same)
  cases left
  cases right
  simp_all

-----------------------------------------------------------------------------------------
-- Stored receipts
-----------------------------------------------------------------------------------------

/-- What is read of a stored log: the address and the topics, and no data. -/
theorem rpcLog_toJson (query : LogQuery) (place : LogPlace) (logIdx : Nat) (log : ReceiptLog)
    : rpcLog query.address place logIdx log.toJson
      = (query.shown log).map (ReceiptLog.entry place logIdx) := by
  have address : (log.toJson.index "address").asStr = some (debugAddress log.address) := rfl
  have data : (log.toJson.index "data").asStr = none := rfl
  have topics
      : (log.toJson.index "topics").asArray.map (List.filterMap SerdeValue.asStr)
        = some (log.topics.map displayHash) := by
    change some ((log.topics.map _).filterMap _) = _
    rw [List.filterMap_map]
    exact congrArg some (congrFun List.filterMap_eq_map log.topics)
  have apart
      : query.address.any (fun fa => debugAddress log.address != debugAddress fa)
        = !query.matchesAddress log := by
    cases asked : query.address with
    | none => simp [LogQuery.matchesAddress, asked]
    | some fa =>
        simp only [LogQuery.matchesAddress, asked, Option.any_some, Option.all_some]
        by_cases same : fa = log.address
        · simp [same]
        · have texts : debugAddress log.address ≠ debugAddress fa :=
            fun equal => same (debugAddress_inj.mp equal).symm
          rw [beq_false_of_ne same, bne_iff_ne.mpr texts]
          rfl
  simp only [rpcLog, address, data, topics, Option.getD_some, Option.getD_none, apart,
    LogQuery.shown]
  cases query.matchesAddress log <;> rfl

section Archive

variable {F : Type} {host : Host F} {format : LogFormat} {log : List AppliedBlock}
  {db : Database}

/-- The logs of the receipt that was stored last under the hash of a transaction. -/
theorem txLogs_eq (archived : Archived host log db)
    (reads : ∀ receipt, format.fromSlice (host.receiptJson receipt) = some receipt.toJson)
    (query : LogQuery) (place : LogPlace)
    : txLogs format db query.address place
      = entriesOf query.shown place
          (((latestReceipt host.crypto log place.txHash).map TransactionReceipt.logs).getD
            []) := by
  rw [txLogs, archived.getReceipt]
  cases latestReceipt host.crypto log place.txHash with
  | none => rfl
  | some receipt =>
      have logs
          : (receipt.toJson.index "logs").asArray
            = some (receipt.logs.map ReceiptLog.toJson) :=
        rfl
      simp only [Option.map_some, reads, logs, Option.getD_some, List.zipIdx_map,
        List.filterMap_map, entriesOf]
      exact List.filterMap_congr (fun entry _ => rpcLog_toJson query place entry.2 entry.1)

/-- The logs of the block that was applied last at a height. -/
theorem blockLogs_eq (archived : Archived host log db)
    (collisionFree
      : Set.InjOn (BlockHeader.hash host.crypto)
          { header | ∃ applied ∈ log, applied.block.header = header })
    (readBack : ∀ applied ∈ log, host.blocks.body.RoundTripsAt applied.block.body)
    (query : LogQuery) (number : UInt64)
    : blockLogs host.blocks format db query.address number
      = .ok
          ((canonicalAt log number).toList.flatMap (fun applied =>
            (applied.loggedTxs host.crypto).flatMap (fun tx =>
              txLogs format db query.address tx.place))) := by
  rw [blockLogs, archived.getBlockHashByNumber]
  cases canonical : canonicalAt log number with
  | none => rfl
  | some applied =>
      have height : applied.block.number = number := by
        simpa using List.find?_some canonical
      have hashes := congrArg List.zipIdx applied.bodyReceipts_hashes
      rw [List.zipIdx_map, List.zipIdx_map] at hashes
      have txs
          := congrArg
            (List.flatMap (fun (txHash, txIndex) =>
              txLogs format db query.address
                { blockNumber := number
                  blockHash := applied.block.hash host.crypto
                  txHash
                  txIndex }))
            hashes
      rw [List.flatMap_map, List.flatMap_map] at txs
      simp only [Option.map_some, archived.getBody collisionFree readBack canonical,
        Option.toList_some, List.flatMap_singleton, AppliedBlock.loggedTxs, List.flatMap_map]
      rw [height]
      exact congrArg Except.ok txs.symm

theorem rangeLogs_eq {filterAddr : Option Address} {perBlock : UInt64 → List RpcLog}
    (blocks
      : ∀ number, blockLogs host.blocks format db filterAddr number = .ok (perBlock number))
    (numbers : List UInt64)
    : rangeLogs host.blocks format db filterAddr numbers = .ok (numbers.flatMap perBlock) := by
  induction numbers with
  | nil => rfl
  | cons number rest ih => rw [rangeLogs, blocks, ih, List.flatMap_cons]

end Archive

-----------------------------------------------------------------------------------------
-- What is found against what is expected
-----------------------------------------------------------------------------------------

/-- At most 1000 blocks are left whole by the bound, or dropped where it overflows. -/
theorem blockNumbers_min {first last : UInt64} (short : last.toNat + 1 - first.toNat ≤ 1000)
    : blockNumbers first (min last (first + 1000))
      = if first.toNat + 1000 < 2 ^ 64 then blockNumbers first last else [] := by
  have sum : (first + 1000).toNat = (first.toNat + 1000) % 2 ^ 64 := UInt64.toNat_add first 1000
  have least
      : min last (first + 1000) = if last ≤ first + 1000 then last else first + 1000 :=
    rfl
  have bound := first.toNat_lt
  rw [least]
  by_cases fits : first.toNat + 1000 < 2 ^ 64
  · rw [Nat.mod_eq_of_lt fits] at sum
    have below : last ≤ first + 1000 := by
      rw [UInt64.le_iff_toNat_le]
      omega
    rw [if_pos fits, if_pos below]
  · have none
        : (if last ≤ first + 1000 then last else first + 1000).toNat + 1 - first.toNat = 0 := by
      simp only [UInt64.le_iff_toNat_le]
      split <;> omega
    rw [if_neg fits, blockNumbers, none]
    rfl

theorem blockNumbers_nodup (first last : UInt64) : (blockNumbers first last).Nodup := by
  have small {i : Nat} (member : i ∈ List.range' first.toNat (last.toNat + 1 - first.toNat))
      : i < 2 ^ 64 := by
    obtain ⟨_, above⟩ := List.mem_range'_1.mp member
    have bound := last.toNat_lt
    omega
  refine List.Nodup.map_on (fun i iMember j jMember same => ?_) List.nodup_range'
  have numbers := congrArg UInt64.toNat same
  rwa [UInt64.toNat_ofNat_of_lt' (small iMember), UInt64.toNat_ofNat_of_lt' (small jMember)]
    at numbers

/-- Each transaction of a block has its own position. -/
theorem AppliedBlock.loggedTxs_places (crypto : Crypto) (applied : AppliedBlock)
    : (applied.loggedTxs crypto).map (fun tx => (tx.place.blockNumber, tx.place.txIndex))
      = (List.range applied.bodyReceipts.length).map (fun txIndex =>
          (applied.block.number, txIndex)) := by
  rw [loggedTxs, List.map_map, List.range_eq_range', ← List.zipIdx_map_snd, List.map_map]
  rfl

/-- No two transactions of a range have the same block and position. -/
theorem loggedIn_places_nodup (crypto : Crypto) (log : List AppliedBlock)
    {numbers : List UInt64} (distinct : numbers.Nodup)
    : ((loggedIn crypto log numbers).map
        (fun tx => (tx.place.blockNumber, tx.place.txIndex))).Nodup := by
  have places (number : UInt64)
      : ((canonicalAt log number).toList.flatMap (AppliedBlock.loggedTxs crypto)).map
            (fun tx => (tx.place.blockNumber, tx.place.txIndex))
        = (canonicalAt log number).toList.flatMap (fun applied =>
            (List.range applied.bodyReceipts.length).map (fun txIndex => (number, txIndex))) := by
    cases canonical : canonicalAt log number with
    | none => rfl
    | some applied =>
        have height : applied.block.number = number := by
          simpa using List.find?_some canonical
        rw [Option.toList_some, List.flatMap_singleton, List.flatMap_singleton,
          AppliedBlock.loggedTxs_places, height]
  rw [loggedIn, List.map_flatMap]
  simp only [places]
  refine List.nodup_flatMap.mpr ⟨fun number _ => ?_, distinct.imp ?_⟩
  · cases canonicalAt log number with
    | none => exact List.nodup_nil
    | some applied =>
        rw [Option.toList_some, List.flatMap_singleton]
        exact List.nodup_range.map (Prod.mk_right_injective number)
  · intro number other apart place here there
    obtain ⟨_, _, here⟩ := List.mem_flatMap.mp here
    obtain ⟨_, _, there⟩ := List.mem_flatMap.mp there
    obtain ⟨_, _, rfl⟩ := List.mem_map.mp here
    obtain ⟨_, _, same⟩ := List.mem_map.mp there
    exact apart (Prod.ext_iff.mp same).1.symm

namespace LogQuery

/-- A log is accepted for its address and its topics alone. -/
theorem accepts_congr (query : LogQuery) {log other : ReceiptLog}
    (address : log.address = other.address) (topics : log.topics = other.topics)
    : query.accepts log = query.accepts other := by
  simp only [accepts, matchesAddress, address, topics]

theorem shown_of_accepts {query : LogQuery} {log : ReceiptLog} (accepted : query.accepts log)
    : query.shown log = some { log with data := [] } :=
  if_pos (Bool.and_eq_true_iff.mp accepted).1

theorem shown_of_not_matchesAddress {query : LogQuery} {log : ReceiptLog}
    (apart : ¬ query.matchesAddress log)
    : query.shown log = none :=
  if_neg apart

/-- At a position: what is shown of the log that is found is the log of the block, if that one
matches.
-/
theorem shown_eq_iff (query : LogQuery) (visible own : Option ReceiptLog)
    : visible.bind query.shown = own.filter query.accepts
      ↔ (∀ log ∈ own, query.accepts log → log.data = [])
        ∧ (∀ log ∈ visible, query.matchesAddress log → topicsMatch query.topics log.topics)
        ∧ (visible.filter query.accepts).map (fun log => (log.address, log.topics))
          = (own.filter query.accepts).map (fun log => (log.address, log.topics)) := by
  cases visible with
  | none =>
      cases own with
      | none => simp
      | some log => cases accepted : query.accepts log <;> simp [Option.filter_some, accepted]
  | some found =>
      by_cases accepted : query.accepts found
      · have met : topicsMatch query.topics found.topics :=
          (Bool.and_eq_true_iff.mp accepted).2
        cases own with
        | none => simp [shown_of_accepts accepted, Option.filter_some, accepted]
        | some log =>
            cases other : query.accepts log <;>
              simp [shown_of_accepts accepted, Option.filter_some, accepted, met, other,
                ReceiptLog.withoutData_eq_iff]
      · by_cases address : query.matchesAddress found
        · -- It is shown, but no log with its address and its topics is accepted.
          have unmet : topicsMatch query.topics found.topics = false := by
            simpa [accepts, address] using accepted
          refine iff_of_false (fun same => ?_) (fun agree => ?_)
          · rw [Option.bind_some, shown, if_pos address] at same
            obtain ⟨_, isAccepted⟩ := Option.filter_eq_some_iff.mp same.symm
            rw [query.accepts_congr rfl rfl] at isAccepted
            exact accepted isAccepted
          · exact absurd (agree.2.1 found rfl address) (by simp [unmet])
        · cases own with
          | none =>
              simp [shown_of_not_matchesAddress address, Option.filter_some, accepted, address]
          | some log =>
              cases other : query.accepts log <;>
                simp [shown_of_not_matchesAddress address, Option.filter_some, accepted, address,
                  other]

theorem entriesOf_eq_iff (query : LogQuery) (place : LogPlace)
    (visible own : List ReceiptLog)
    : entriesOf query.shown place visible = entriesOf (Option.guard query.accepts) place own
      ↔ query.Unaffected own visible := by
  have keyed (keep : ReceiptLog → Option ReceiptLog) (log : ReceiptLog) (i : Nat)
      : ∀ entry ∈ (keep log).map (ReceiptLog.entry place i), entry.logIndex = lowerHex i := by
    intro entry member
    obtain ⟨_, _, rfl⟩ := Option.map_eq_some_iff.mp member
    rfl
  have mapped (keep : ReceiptLog → Option ReceiptLog) (log : Option ReceiptLog) (i : Nat)
      : log.bind (fun log => (keep log).map (ReceiptLog.entry place i))
        = (log.bind keep).map (ReceiptLog.entry place i) := by
    cases log <;> rfl
  unfold entriesOf
  rw [KeyedParts.filterMap_zipIdx_eq_iff lowerHex_injective (keyed _) (keyed _)]
  simp only [mapped, (Option.map_injective (ReceiptLog.entry_injective place _)).eq_iff,
    Option.bind_guard, shown_eq_iff, forall_and]
  refine ⟨fun ⟨noData, topicsMet, kept⟩ => ⟨fun log member => ?_, fun log member => ?_, kept⟩,
    fun unaffected => ⟨fun i log found => ?_, fun i log found => ?_, unaffected.kept⟩⟩
  · obtain ⟨i, found⟩ := List.mem_iff_getElem?.mp member
    exact noData i log found
  · obtain ⟨i, found⟩ := List.mem_iff_getElem?.mp member
    exact topicsMet i log found
  · exact unaffected.noData log (List.mem_of_getElem? found)
  · exact unaffected.topicsMet log (List.mem_of_getElem? found)

/-- The entries agree exactly when they agree for each transaction. -/
theorem returned_eq_expected_iff (query : LogQuery) (crypto : Crypto) (log : List AppliedBlock)
    : query.returned crypto log = query.expected crypto log
      ↔ ∀ tx ∈ query.range crypto log,
          query.Unaffected tx.receipt.logs (query.visible crypto log tx.place.txHash) := by
  have keyed (keep : ReceiptLog → Option ReceiptLog) (logs : LoggedTx → List ReceiptLog)
      : KeyedParts.Keyed (fun entry => (entry.blockNumber, entry.transactionIndex))
          (fun tx => (lowerHex tx.place.blockNumber.toNat, lowerHex tx.place.txIndex))
          (fun tx => entriesOf keep tx.place (logs tx)) (query.range crypto log) := by
    intro tx _ entry member
    obtain ⟨_, _, kept⟩ := List.mem_filterMap.mp member
    obtain ⟨_, _, rfl⟩ := Option.map_eq_some_iff.mp kept
    rfl
  have distinct
      : ((query.range crypto log).map (fun tx =>
          (lowerHex tx.place.blockNumber.toNat, lowerHex tx.place.txIndex))).Nodup := by
    have texts
        : Function.Injective (fun place : UInt64 × Nat =>
            (lowerHex place.1.toNat, lowerHex place.2)) :=
      (lowerHex_injective.comp (fun _ _ => UInt64.toNat_inj.mp)).prodMap lowerHex_injective
    have places
        := (loggedIn_places_nodup crypto log
            (blockNumbers_nodup query.fromBlock query.toBlock)).map texts
    rwa [List.map_map] at places
  unfold returned expected
  rw [KeyedParts.flatMap_eq_iff (keyed _ _) (keyed _ _) distinct]
  simp only [entriesOf_eq_iff]

end LogQuery

-----------------------------------------------------------------------------------------
-- Answers
-----------------------------------------------------------------------------------------

section Queries

variable {F : Type} {host : Host F} {format : LogFormat} {log : List AppliedBlock}
  {db : Database}

/-- The number of a bound that is not the latest block. -/
theorem parseU64Hex_of_blockBound {latest number : UInt64} {text : String}
    (bound : blockBound latest text = some number) (notLatest : text ≠ "latest")
    : parseU64Hex text = .ok number := by
  rw [blockBound, if_neg notLatest] at bound
  cases parsed : parseU64Hex text with
  | error e => simp [parsed, Except.toOption] at bound
  | ok found =>
      rw [parsed] at bound
      exact congrArg Except.ok (Option.some.inj bound)

/-- A query is answered with the entries of the logs that are found. -/
theorem getLogs_eq_returned (archived : Archived host log db)
    (collisionFree
      : Set.InjOn (BlockHeader.hash host.crypto)
          { header | ∃ applied ∈ log, applied.block.header = header })
    (readBack : ∀ applied ∈ log, host.blocks.body.RoundTripsAt applied.block.body)
    (reads : ∀ receipt, format.fromSlice (host.receiptJson receipt) = some receipt.toJson)
    {latest : UInt64} (head : db.getLatestBlockNumber = .ok (some latest))
    {filter : LogFilter} {query : LogQuery} (denotes : filter.Denotes format latest query)
    (notLatest : filter.fromBlock ≠ some "latest")
    : getLogs host.blocks format db filter = .ok (query.returned host.crypto log) := by
  have first : parseU64Hex (filter.fromBlock.getD "0x0") = .ok query.fromBlock := by
    refine parseU64Hex_of_blockBound denotes.fromBlock (fun same => notLatest ?_)
    cases text : filter.fromBlock with
    | none => simp [text] at same
    | some first =>
        rw [text] at same
        exact congrArg some same
  have last
      : parseU64Hex (filter.toBlock.getD "latest") = .ok query.toBlock
        ∨ latest = query.toBlock
          ∧ ∃ e, parseU64Hex (filter.toBlock.getD "latest") = .error e := by
    have bound := denotes.toBlock
    by_cases tag : filter.toBlock.getD "latest" = "latest"
    · rw [tag] at bound ⊢
      exact Or.inr ⟨Option.some.inj bound, _, rfl⟩
    · exact Or.inl (parseU64Hex_of_blockBound bound tag)
  have bounded
      : getLogs host.blocks format db filter
        = rangeLogs host.blocks format db query.address
            (blockNumbers query.fromBlock (min query.toBlock (query.fromBlock + 1000))) := by
    rw [getLogs, first]
    rcases last with parsed | ⟨same, e, failed⟩
    · simp only [head, parsed, denotes.address]
    · simp only [head, failed, same, denotes.address, Option.getD_some]
  rw [bounded,
    rangeLogs_eq (@blockLogs_eq F host format log db archived collisionFree readBack query),
    blockNumbers_min denotes.short, LogQuery.returned, LogQuery.range, loggedIn]
  simp only [txLogs_eq archived reads, LogQuery.visible]
  split
  next fits => simp only [List.flatMap_assoc]
  next wraps => simp [entriesOf]

end Queries

-----------------------------------------------------------------------------------------
-- One transaction with one log
-----------------------------------------------------------------------------------------

/-- A host whose formats read bodies and receipts back. -/
def loggingHost : Host Milli :=
  { Host.lossless with blocks := { Host.lossless.blocks with body := .enumerated } }

/-- The format that reads the receipts of this host. -/
def loggingFormat : LogFormat :=
  { fromSlice := fun bytes =>
      ((Codec.enumerated : Codec TransactionReceipt).decode bytes).toOption.map
        TransactionReceipt.toJson
    fromHexError := fun _ => "" }

theorem loggingFormat_reads (receipt : TransactionReceipt)
    : loggingFormat.fromSlice (loggingHost.receiptJson receipt) = some receipt.toJson := by
  have read := @Codec.enumerated_roundTrips TransactionReceipt _ receipt
  simp only [loggingFormat, loggingHost, Host.lossless,
    show Codec.enumerated.decode _ = _ from read]
  rfl

/-- The receipt of a transaction that emits a log. -/
def emittedReceipt (log : ReceiptLog) : TransactionReceipt :=
  { txHash := (SignedTransaction.transfer 7 1 0 9 0).hash
    blockNumber := 1
    blockHash := 0
    index := 0
    success := true
    gasUsed := 21000
    cumulativeGasUsed := 21000
    contractAddress := none
    logs := [log] }

/-- A block on top of genesis with this transaction. -/
def emitting (log : ReceiptLog) : AppliedBlock :=
  { block := Block.new Chain.firstBlock.header [.transfer 7 1 0 9 0]
    receipts := [emittedReceipt log]
    hashes := rfl }

/-- The blocks of a chain of this block. -/
def emittedLog (log : ReceiptLog) : List AppliedBlock := [emitting log, .genesis (.genesis 0)]

def emittedDb (log : ReceiptLog) : Database :=
  (written loggingHost (emittedLog log)).putLatestBlockNumber 1

theorem archived_emitted (log : ReceiptLog)
    : Archived loggingHost (emittedLog log) (emittedDb log) :=
  Archived.congr ⟨rfl, rfl, rfl⟩ (Database.contents_putLatestBlockNumber (by decide) _ _)
    (Database.contents_putLatestBlockNumber (by decide) _ _)
    (Database.contents_putLatestBlockNumber (by decide) _ _)

theorem collisionFree_emitted (log : ReceiptLog)
    : Set.InjOn (BlockHeader.hash loggingHost.crypto)
        { header | ∃ applied ∈ emittedLog log, applied.block.header = header } := by
  have collisionFree
      : Set.InjOn (BlockHeader.hash .disclosing) {Chain.firstBlock.header, .genesis 0} := by
    have apart
        : Chain.firstBlock.header.hash .disclosing ≠ (BlockHeader.genesis 0).hash .disclosing := by
      decide +kernel
    rintro left (rfl | rfl) right (rfl | rfl) same
    · rfl
    · exact absurd same apart
    · exact absurd same.symm apart
    · rfl
  refine collisionFree.mono ?_
  rintro header ⟨applied, member, rfl⟩
  rcases List.mem_pair.mp member with rfl | rfl
  · exact Or.inl rfl
  · exact Or.inr rfl

theorem readBack_emitted (log : ReceiptLog)
    : ∀ applied ∈ emittedLog log,
        loggingHost.blocks.body.RoundTripsAt applied.block.body :=
  fun applied _ => @Codec.enumerated_roundTrips BlockBody _ applied.block.body

theorem head_emitted (log : ReceiptLog)
    : (emittedDb log).getLatestBlockNumber = .ok (some 1) :=
  Database.getLatestBlockNumber_put _ 1

/-- A filter for given topics in all blocks. -/
def topicFilter (topics : List B256) : LogFilter :=
  { fromBlock := none
    toBlock := none
    address := none
    topics := some (topics.map (fun topic => some (displayHash topic))) }

def topicQuery (topics : List B256) : LogQuery :=
  { fromBlock := 0, toBlock := 1, address := none, topics := topics.map some }

theorem topicFilter_denotes (topics : List B256)
    : (topicFilter topics).Denotes loggingFormat 1 (topicQuery topics) := by
  have read
      : (topics.map (fun topic => some (displayHash topic))).mapM (Option.mapM parseTopic)
        = some (topics.map some) := by
    induction topics with
    | nil => rfl
    | cons topic rest ih =>
        rw [List.map_cons, List.mapM_cons, Option.mapM_some, parseTopic_displayHash, ih]
        rfl
  exact {
    fromBlock := show blockBound 1 "0x0" = some 0 by decide +kernel
    toBlock := show blockBound 1 "latest" = some 1 by decide +kernel
    address := rfl
    topics := read
    inChain := UInt64.le_refl 1
    short := by simp [topicQuery]
  }

/-- The transaction of the block. -/
def emittedTx (log : ReceiptLog) : LoggedTx :=
  { place :=
      { blockNumber := 1
        blockHash := (emitting log).block.hash loggingHost.crypto
        txHash := (emittedReceipt log).txHash
        txIndex := 0 }
    receipt := emittedReceipt log }

theorem range_emitted (topics : List B256) (log : ReceiptLog)
    : (topicQuery topics).range loggingHost.crypto (emittedLog log) = [emittedTx log] := by
  have numbers
      : blockNumbers (topicQuery topics).fromBlock (topicQuery topics).toBlock = [0, 1] :=
    rfl
  have genesis : canonicalAt (emittedLog log) 0 = some (.genesis (.genesis 0)) := rfl
  have first : canonicalAt (emittedLog log) 1 = some (emitting log) := rfl
  have empty : (AppliedBlock.genesis (.genesis 0)).loggedTxs loggingHost.crypto = [] := rfl
  have one : (emitting log).loggedTxs loggingHost.crypto = [emittedTx log] := rfl
  rw [LogQuery.range, loggedIn, numbers]
  simp only [List.flatMap_cons, List.flatMap_nil, genesis, first, Option.toList_some, empty, one]
  rfl

theorem visible_emitted (topics : List B256) (log : ReceiptLog)
    : (topicQuery topics).visible loggingHost.crypto (emittedLog log)
        (emittedTx log).place.txHash
      = [log] := by
  simp [LogQuery.visible, topicQuery, latestReceipt, emittedLog, AppliedBlock.stored, emitting,
    emittedTx, emittedReceipt]

/-- A log with one topic and without data. -/
def quietLog : ReceiptLog := { address := 9, topics := [5], data := [] }

-----------------------------------------------------------------------------------------
-- Exact answers
-----------------------------------------------------------------------------------------

section Exact

variable {F : Type} {host : Host F} {format : LogFormat} {log : List AppliedBlock}
  {db : Database}

/-- A query over the blocks that were applied is answered with exactly the logs that match, each
with its topics and its data and in their order, if and only if the range does not begin with the
name of the latest block and, for each transaction of the range, no log that matches has data, no
other topics are found at the address and the logs that match are found in their places.
-/
theorem getLogs_eq_expected_iff (archived : Archived host log db)
    (collisionFree
      : Set.InjOn (BlockHeader.hash host.crypto)
          { header | ∃ applied ∈ log, applied.block.header = header })
    (readBack : ∀ applied ∈ log, host.blocks.body.RoundTripsAt applied.block.body)
    (reads : ∀ receipt, format.fromSlice (host.receiptJson receipt) = some receipt.toJson)
    {latest : UInt64} (head : db.getLatestBlockNumber = .ok (some latest))
    {filter : LogFilter} {query : LogQuery} (denotes : filter.Denotes format latest query)
    : getLogs host.blocks format db filter = .ok (query.expected host.crypto log)
      ↔ filter.fromBlock ≠ some "latest"
        ∧ ∀ tx ∈ query.range host.crypto log,
            query.Unaffected tx.receipt.logs
              (query.visible host.crypto log tx.place.txHash) := by
  by_cases tag : filter.fromBlock = some "latest"
  · obtain ⟨e, refused⟩ : ∃ e, getLogs host.blocks format db filter = .error e := by
      rw [getLogs, tag]
      exact ⟨_, rfl⟩
    simp [refused, tag]
  · rw [getLogs_eq_returned archived collisionFree readBack reads head denotes tag,
      Except.ok.injEq, LogQuery.returned_eq_expected_iff]
    exact (and_iff_right tag).symm

end Exact

/-- The topic of the log is asked for. -/
theorem getLogs_eq_expected_emitted
    : getLogs loggingHost.blocks loggingFormat (emittedDb quietLog) (topicFilter [5])
      = .ok ((topicQuery [5]).expected loggingHost.crypto (emittedLog quietLog)) := by
  refine (getLogs_eq_expected_iff (archived_emitted quietLog) (collisionFree_emitted quietLog)
    (readBack_emitted quietLog) loggingFormat_reads (head_emitted quietLog)
    (topicFilter_denotes [5])).mpr ⟨by simp [topicFilter], ?_⟩
  rw [range_emitted]
  intro tx member
  obtain rfl := List.mem_singleton.mp member
  rw [visible_emitted]
  constructor
  · rintro log inLogs _
    obtain rfl := List.mem_singleton.mp inLogs
    rfl
  · rintro log inLogs _
    obtain rfl := List.mem_singleton.mp inLogs
    rfl
  · intro i
    rfl

/-- Another topic is asked for, and the log is returned. -/
theorem getLogs_topics_unread
    : (topicFilter [6]).Denotes loggingFormat 1 (topicQuery [6])
      ∧ getLogs loggingHost.blocks loggingFormat (emittedDb quietLog) (topicFilter [6])
        = .ok [quietLog.entry (emittedTx quietLog).place 0]
      ∧ (topicQuery [6]).expected loggingHost.crypto (emittedLog quietLog) = [] := by
  refine ⟨topicFilter_denotes [6], ?_, ?_⟩
  · rw [getLogs_eq_returned (archived_emitted quietLog) (collisionFree_emitted quietLog)
      (readBack_emitted quietLog) loggingFormat_reads (head_emitted quietLog)
      (topicFilter_denotes [6]) (by simp [topicFilter]), LogQuery.returned, range_emitted,
      List.flatMap_singleton, visible_emitted]
    rfl
  · rw [LogQuery.expected, range_emitted]
    rfl

end VeloChain
