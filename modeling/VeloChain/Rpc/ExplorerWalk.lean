import VeloChain.Node.ReorgTransactions
import VeloChain.Node.SnapshotRoundTrip
import VeloChain.Rpc.Explorer
import VeloChain.Rpc.LogQueries

/-! The chain as a client of the Ethereum API sees it.
Numbers and hashes that were handed out are understood when they come back. So a client can walk
from the latest block over parent hashes down to genesis, and finds on its way the same blocks by
number and by hash; for a transaction it finds the receipt that was stored last.
-/

namespace VeloChain

-----------------------------------------------------------------------------------------
-- Texts
-----------------------------------------------------------------------------------------

/-- A digit of a number is one byte, which has its value. -/
theorem hexValue_digitChar {n : Nat} (small : n < 16)
    : ∃ c, String.utf8EncodeChar n.digitChar = [c] ∧ c ≠ 43
        ∧ hexValue c = some (UInt8.ofNat n) := by
  have all
      : ∀ m : Fin 16,
          String.utf8EncodeChar m.val.digitChar = [UInt8.ofNat m.val.digitChar.toNat]
          ∧ UInt8.ofNat m.val.digitChar.toNat ≠ 43
          ∧ hexValue (UInt8.ofNat m.val.digitChar.toNat) = some (UInt8.ofNat m) := by
    decide +kernel
  exact ⟨_, all ⟨n, small⟩⟩

theorem strip0x_prefixed (digits : List Char)
    : strip0x ("0x" ++ String.ofList digits) = String.ofList digits := by
  rw [strip0x, String.toList_append]
  exact String.ofList_toList

/-- The digits of a number are read up to what follows them, by induction on the number. -/
theorem u64Digits_toDigits (n : Nat) (fits : n < 2 ^ 64) (rest : Bytes)
    : u64Digits 0 ((Nat.toDigits 16 n).flatMap String.utf8EncodeChar ++ rest)
      = u64Digits n rest := by
  induction n using Nat.strong_induction_on generalizing rest with
  | _ n ih =>
      have last : n % 16 < 16 := Nat.mod_lt _ (by decide)
      obtain ⟨c, encoded, -, value⟩ := hexValue_digitChar last
      have one : (UInt8.ofNat (n % 16)).toNat = n % 16 := by
        rw [UInt8.toNat_ofNat']
        omega
      rw [Nat.toDigits_eq_if (by decide)]
      split
      · rename_i small
        rw [Nat.mod_eq_of_lt small] at encoded value one
        simp only [List.flatMap_cons, List.flatMap_nil, encoded, List.singleton_append,
          List.append_nil, u64Digits, value, one, Nat.zero_mul, Nat.zero_add, if_pos fits]
      · rename_i large
        have upper := ih (n / 16) (by omega) (by omega) (c :: rest)
        have whole : n / 16 * 16 + n % 16 = n := Nat.div_add_mod' n 16
        simp only [List.flatMap_append, List.flatMap_cons, List.flatMap_nil, encoded,
          List.append_assoc, List.singleton_append, List.append_nil, upper, u64Digits, value,
          one, whole, if_pos fits]

/-- A number begins with a digit. -/
theorem exists_toDigits_cons (n : Nat)
    : ∃ m rest, m < 16 ∧ Nat.toDigits 16 n = m.digitChar :: rest := by
  induction n using Nat.strong_induction_on with
  | _ n ih =>
      rw [Nat.toDigits_eq_if (by decide)]
      split
      · rename_i small
        exact ⟨n, [], small, rfl⟩
      · rename_i large
        obtain ⟨m, rest, digit, first⟩ := ih (n / 16) (by omega)
        exact ⟨m, rest ++ [(n % 16).digitChar], digit, by rw [first, List.cons_append]⟩

/-- A number that was handed out is understood. -/
theorem u64FromHex_lowerHex (n : UInt64) : u64FromHex (strip0x (lowerHex n.toNat)) = .ok n := by
  have digits := u64Digits_toDigits n.toNat n.toNat_lt []
  obtain ⟨m, rest, digit, first⟩ := exists_toDigits_cons n.toNat
  obtain ⟨c, encoded, unsigned, -⟩ := hexValue_digitChar digit
  rw [List.append_nil, u64Digits, UInt64.ofNat_toNat, first, List.flatMap_cons, encoded] at digits
  rw [lowerHex, strip0x_prefixed, u64FromHex, utf8, String.toList_ofList, first,
    List.flatMap_cons, encoded]
  cases later : rest.flatMap String.utf8EncodeChar with
  | nil =>
      rw [later] at digits
      exact digits
  | cons second others =>
      rw [later] at digits
      exact (if_neg unsigned).trans digits

theorem lowerHex_ne_latest (n : Nat) : lowerHex n ≠ "latest" := by
  intro same
  have first : (lowerHex n).toList.head? = some '0' := by
    rw [lowerHex, String.toList_append]
    rfl
  rw [same] at first
  exact absurd first (by decide)

theorem parseHash_displayHash (format : LogFormat) (hash : B256)
    : parseHash format (displayHash hash) = .ok hash := by
  have stripped : strip0x (displayHash hash) = hexEncode (hashSlice hash) :=
    strip0x_prefixed _
  rw [parseHash, stripped, hexDecode_hexEncode]
  simp only [length_hashSlice, ne_eq, not_true_eq_false, if_false, hashFromSlice_hashSlice]

-----------------------------------------------------------------------------------------
-- Blocks
-----------------------------------------------------------------------------------------

namespace Chain

variable {F : Type} {host : Host F} {headers : Set BlockHeader} {chain : Chain F}
  {head : BlockHeader}

/-- The block at a height up to the head is found by its number and by its hash. -/
theorem Indexed.exists_rpcBlock (indexed : Indexed host headers chain head)
    (format : LogFormat) {number : UInt64} (reached : number ≤ head.number)
    : ∃ header body,
        HashChain.Ancestor (headerLinks host.crypto) headers header head
        ∧ header.number = number
        ∧ ethGetBlockByNumber host.crypto host.blocks chain.db (lowerHex number.toNat)
          = .ok (some (.fromBlock host.crypto header body))
        ∧ ethGetBlockByHash host.crypto host.blocks format chain.db
            (displayHash (header.hash host.crypto))
          = .ok (some (.fromBlock host.crypto header body)) := by
  obtain ⟨header, above, height, entry, found, body, stored⟩ :=
    indexed.canonical.indexed number.toNat (UInt64.le_iff_toNat_le.mp reached)
  rw [indexEntry, UInt64.ofNat_toNat] at entry
  have shown : rpcBlockOf host.crypto host.blocks chain.db (header.hash host.crypto)
      = .ok (some (.fromBlock host.crypto header body)) := by
    simp only [rpcBlockOf, found, stored, Option.getD_some]
  refine ⟨header, body, above, UInt64.toNat_inj.mp height, ?_, ?_⟩
  · have known : chain.db.getBlockHashByNumber number
        = .ok (some (header.hash host.crypto)) :=
      entry
    simp only [ethGetBlockByNumber, if_neg (lowerHex_ne_latest _), u64FromHex_lowerHex, known]
    exact shown
  · rw [ethGetBlockByHash, parseHash_displayHash]
    exact shown

/-- Of two ancestors of the head, one height apart, one is the parent of the other. -/
theorem parentHash_eq (collisionFree : Set.InjOn (BlockHeader.hash host.crypto) headers)
    {parent child : BlockHeader}
    (below : HashChain.Ancestor (headerLinks host.crypto) headers parent head)
    (above : HashChain.Ancestor (headerLinks host.crypto) headers child head)
    (next : child.number.toNat = parent.number.toNat + 1)
    : child.parentHash = parent.hash host.crypto := by
  have descends : HashChain.Ancestor (headerLinks host.crypto) headers parent child :=
    above.linear collisionFree below (by
      change parent.number.toNat ≤ child.number.toNat
      omega)
  cases descends with
  | self => omega
  | @step between _ older _ linked height =>
      have same : parent = between := by
        refine older.unique collisionFree (.self older.member_newer) ?_
        change parent.number.toNat = between.number.toNat
        change child.number.toNat = between.number.toNat + 1 at height
        omega
      rw [same]
      exact linked

variable [F32 F] {known : Set BlockHeader}

/-- The API of every running node knows a latest number. The latest block is the one of this
number; up to it every block is found by its number and, the same, by its hash; and the parent
hash of a block leads to the block one below. So the walk over parent hashes from the latest
block meets every number down to genesis.
-/
theorem explorer_walk (host : Host F) (format : LogFormat)
    (headersRead : host.blocks.header.RoundTrips) (bodiesRead : host.blocks.body.RoundTrips)
    (entitiesRead : host.ecs.RoundTrips)
    (collisionFree : Set.InjOn (BlockHeader.hash host.crypto) known)
    (running : Running host known chain)
    : let byNumber := ethGetBlockByNumber host.crypto host.blocks chain.db
      let byHash := ethGetBlockByHash host.crypto host.blocks format chain.db
      ∃ latest : UInt64,
        ethBlockNumber chain.db = .ok (lowerHex latest.toNat)
        ∧ byNumber "latest" = byNumber (lowerHex latest.toNat)
        ∧ ∀ number ≤ latest, ∃ block,
            byNumber (lowerHex number.toNat) = .ok (some block)
            ∧ block.number = lowerHex number.toNat
            ∧ byHash block.hash = .ok (some block)
            ∧ (number ≠ 0 →
                byHash block.parentHash = byNumber (lowerHex (number - 1).toNat)) := by
  intro byNumber byHash
  obtain ⟨head, indexed⟩ :=
    (running.kept headersRead bodiesRead entitiesRead collisionFree).indexed
  have tellsApart := collisionFree.mono (fun _ (member : _ ∈ aged known) => member.1)
  have latest : latestNumber chain.db = .ok head.number := by
    rw [latestNumber, indexed.latest]
    rfl
  refine ⟨head.number, ?_, ?_, ?_⟩
  · rw [ethBlockNumber, latest]
  · simp only [byNumber, ethGetBlockByNumber, if_true, latest, if_neg (lowerHex_ne_latest _),
      u64FromHex_lowerHex]
  · intro number reached
    obtain ⟨header, body, above, height, listed, found⟩ :=
      indexed.exists_rpcBlock format reached
    refine ⟨_, listed, ?_, found, fun later => ?_⟩
    · rw [RpcBlock.fromBlock, height]
    · have positive : number.toNat ≠ 0 := fun zero => later (UInt64.toNat_inj.mp zero)
      have one : (number - 1).toNat + 1 = number.toNat := by
        have least : 1 ≤ number := by
          rw [UInt64.le_iff_toNat_le, UInt64.toNat_one]
          omega
        rw [UInt64.toNat_sub_of_le number 1 least, UInt64.toNat_one]
        omega
      have lower : number - 1 ≤ head.number := by
        rw [UInt64.le_iff_toNat_le] at reached ⊢
        omega
      obtain ⟨parent, parentBody, below, depth, listed', found'⟩ :=
        indexed.exists_rpcBlock format lower
      have linked := parentHash_eq tellsApart below above (by rw [height, depth, one])
      rw [RpcBlock.fromBlock, linked]
      exact found'.trans listed'.symm

/-- The API of a node that has imported a block. -/
theorem explorer_walk_imported
    : let byNumber :=
        ethGetBlockByNumber tickingHost.crypto tickingHost.blocks importedChain.db
      let byHash :=
        ethGetBlockByHash tickingHost.crypto tickingHost.blocks loggingFormat importedChain.db
      importedChain.head = some firstBlock.header
      ∧ ∃ latest : UInt64,
          ethBlockNumber importedChain.db = .ok (lowerHex latest.toNat)
          ∧ byNumber "latest" = byNumber (lowerHex latest.toNat)
          ∧ ∀ number ≤ latest, ∃ block,
              byNumber (lowerHex number.toNat) = .ok (some block)
              ∧ block.number = lowerHex number.toNat
              ∧ byHash block.hash = .ok (some block)
              ∧ (number ≠ 0 →
                  byHash block.parentHash = byNumber (lowerHex (number - 1).toNat)) :=
  ⟨head_importedChain,
    explorer_walk tickingHost loggingFormat tickingHost_headers tickingHost_bodies
      tickingHost_entities collisionFree_importedHeaders running_importedChain⟩

end Chain

-----------------------------------------------------------------------------------------
-- Receipts
-----------------------------------------------------------------------------------------

/-- The receipt that is shown for a stored one. -/
def RpcReceipt.ofReceipt (receipt : TransactionReceipt) : RpcReceipt :=
  { transactionHash := displayHash receipt.txHash
    blockNumber := lowerHex receipt.blockNumber.toNat
    blockHash := displayHash receipt.blockHash
    transactionIndex := lowerHex receipt.index.toNat
    success := receipt.success
    gasUsed := lowerHex receipt.gasUsed.toNat
    cumulativeGasUsed := lowerHex receipt.cumulativeGasUsed.toNat
    contractAddress := receipt.contractAddress.map debugAddress
    logs := receipt.logs.map ReceiptLog.toJson }

theorem hexDigit_ne_x {n : Nat} (small : n < 16) : hexDigit n ≠ 'x' := by
  have all : ∀ m : Fin 16, hexDigit m ≠ 'x' := by decide
  exact all ⟨n, small⟩

/-- There is no second prefix among the digits. -/
theorem trimStart0x_hexText (bytes : Bytes)
    : "0x" ++ String.ofList (trimStart0x (hexText bytes).toList) = hexText bytes := by
  have text : (hexText bytes).toList
      = '0' :: 'x' :: bytes.flatMap
          (fun byte => [hexDigit (byte.toNat / 16), hexDigit (byte.toNat % 16)]) := by
    simp only [hexText, String.toList_append, String.toList_ofList]
    rfl
  have digits : trimStart0x (bytes.flatMap
        (fun byte => [hexDigit (byte.toNat / 16), hexDigit (byte.toNat % 16)]))
      = bytes.flatMap
          (fun byte => [hexDigit (byte.toNat / 16), hexDigit (byte.toNat % 16)]) := by
    cases bytes with
    | nil => rfl
    | cons byte rest =>
        have second := hexDigit_ne_x (Nat.mod_lt byte.toNat (show 16 > 0 by decide))
        simp only [List.flatMap_cons, List.cons_append, List.nil_append]
        unfold trimStart0x
        split
        · rename_i more same
          exact absurd (List.cons.inj (List.cons.inj same).2).1 second
        · rfl
  rw [text, trimStart0x, digits]
  rfl

theorem asU64_number (n : UInt64) : (SerdeValue.number (toString n.toNat)).asU64 = some n := by
  have text : (toString n.toNat).toList = Nat.toDigits 10 n.toNat := Nat.toList_repr
  have digits : (Nat.toDigits 10 n.toNat).all Char.isDigit = true :=
    List.all_eq_true.mpr (fun _ => Nat.isDigit_of_mem_toDigits (by decide) (by decide))
  simp only [SerdeValue.asU64, text, Nat.ofDigitChars_ten_toDigits, digits, n.toNat_lt, and_self,
    if_true, UInt64.ofNat_toNat]

/-- A receipt is shown as it was stored. -/
theorem fromStored_toJson (receipt : TransactionReceipt)
    : RpcReceipt.fromStored receipt.toJson = .ofReceipt receipt := by
  have texts : ∀ hash : B256,
      "0x" ++ String.ofList (trimStart0x (displayHash hash).toList) = displayHash hash :=
    fun hash => trimStart0x_hexText (hashSlice hash)
  have index : (SerdeValue.number (toString receipt.index.toNat)).asU64
      = some receipt.index.toUInt64 := by
    rw [← UInt32.toNat_toUInt64]
    exact asU64_number _
  have contract : ((receipt.contractAddress.map (fun a => SerdeValue.string (debugAddress a))).getD
      .null).asStr = receipt.contractAddress.map debugAddress := by
    cases receipt.contractAddress <;> rfl
  have members : RpcReceipt.fromStored receipt.toJson
      = { transactionHash :=
            "0x" ++ String.ofList (trimStart0x (displayHash receipt.txHash).toList)
          blockNumber :=
            lowerHex
              ((SerdeValue.number (toString receipt.blockNumber.toNat)).asU64.getD 0).toNat
          blockHash := "0x" ++ String.ofList (trimStart0x (displayHash receipt.blockHash).toList)
          transactionIndex :=
            lowerHex ((SerdeValue.number (toString receipt.index.toNat)).asU64.getD 0).toNat
          success := receipt.success
          gasUsed :=
            lowerHex ((SerdeValue.number (toString receipt.gasUsed.toNat)).asU64.getD 0).toNat
          cumulativeGasUsed :=
            lowerHex
              ((SerdeValue.number (toString receipt.cumulativeGasUsed.toNat)).asU64.getD 0).toNat
          contractAddress :=
            ((receipt.contractAddress.map (fun a => SerdeValue.string (debugAddress a))).getD
              .null).asStr
          logs := receipt.logs.map ReceiptLog.toJson } :=
    rfl
  rw [members, texts, texts, asU64_number, asU64_number, asU64_number, index, contract]
  rfl

/-- A block that is shown was found over the index of numbers. -/
theorem exists_number_of_shown {crypto : Crypto} {codecs : BlockCodecs} {db : Database}
    {number : String} {block : RpcBlock}
    (shown : ethGetBlockByNumber crypto codecs db number = .ok (some block))
    : ∃ blockNum hash,
        db.getBlockHashByNumber blockNum = .ok (some hash)
        ∧ rpcBlockOf crypto codecs db hash = .ok (some block) := by
  unfold ethGetBlockByNumber at shown
  extract_lets blockNum at shown
  cases parsed : blockNum with
  | error e => simp [parsed] at shown
  | ok n =>
      simp only [parsed] at shown
      split at shown
      · exact nomatch shown
      · exact nomatch shown
      · rename_i hash found
        exact ⟨n, hash, found, shown⟩

theorem transactions_of_shown {crypto : Crypto} {codecs : BlockCodecs} {db : Database}
    {hash : B256} {block : RpcBlock} {body : BlockBody}
    (shown : rpcBlockOf crypto codecs db hash = .ok (some block))
    (stored : db.getBody codecs hash = .ok (some body))
    : block.transactions = body.transactions.map (fun tx => displayHash tx.hash) := by
  simp only [rpcBlockOf, stored, Option.getD_some] at shown
  split at shown
  · exact nomatch shown
  · exact nomatch shown
  · obtain rfl := Option.some.inj (Except.ok.inj shown)
    rfl

section Receipts

variable {F : Type} {host : Host F} {format : LogFormat} {log : List AppliedBlock} {db : Database}

/-- The receipt that was stored last for a transaction is shown. -/
theorem ethGetTransactionReceipt_eq (archived : Archived host log db)
    (reads : ∀ receipt, format.fromSlice (host.receiptJson receipt) = some receipt.toJson)
    (decodeError : Bytes → String) (txHash : B256)
    : ethGetTransactionReceipt format db decodeError (displayHash txHash)
      = .ok ((latestReceipt host.crypto log txHash).map RpcReceipt.ofReceipt) := by
  rw [ethGetTransactionReceipt, parseHash_displayHash]
  simp only [archived.getReceipt]
  cases latestReceipt host.crypto log txHash with
  | none => rfl
  | some receipt => simp only [Option.map_some, reads, fromStored_toJson]

/-- Each transaction of a block that was applied has a receipt, which was stored with a block
that has the transaction too.
-/
theorem exists_latestReceipt (crypto : Crypto) {applied : AppliedBlock} (member : applied ∈ log)
    {tx : SignedTransaction} (listed : tx ∈ applied.block.body.transactions)
    : ∃ receipt,
        latestReceipt crypto log tx.hash = some receipt
        ∧ receipt.txHash = tx.hash
        ∧ ∃ other ∈ log,
            receipt.blockHash = other.block.hash crypto
            ∧ tx.hash ∈ other.block.body.transactions.map SignedTransaction.hash := by
  have kinds : ∀ other : AppliedBlock, ∀ txHash,
      txHash ∈ other.receipts.map TransactionReceipt.txHash
        ↔ txHash ∈ other.block.body.transactions.map SignedTransaction.hash := by
    intro other txHash
    rw [other.hashes]
    simp only [Block.evmTxs, Block.gameTxs, List.map_append, List.mem_append, List.mem_map,
      List.mem_filter]
    constructor
    · rintro (⟨tx, ⟨present, -⟩, same⟩ | ⟨tx, ⟨present, -⟩, same⟩) <;> exact ⟨tx, present, same⟩
    · rintro ⟨tx, present, same⟩
      by_cases kind : tx.isGameAction
      · exact .inr ⟨tx, ⟨present, kind⟩, same⟩
      · exact .inl ⟨tx, ⟨present, by simp [kind]⟩, same⟩
  obtain ⟨own, inOwn, ownHash⟩ :=
    List.mem_map.mp ((kinds applied tx.hash).mpr (List.mem_map_of_mem listed))
  have stored : { own with blockHash := applied.block.hash crypto }
      ∈ log.flatMap (AppliedBlock.stored crypto) :=
    List.mem_flatMap.mpr
      ⟨applied, member, List.mem_reverse.mpr (List.mem_map.mpr ⟨own, inOwn, rfl⟩)⟩
  cases found : latestReceipt crypto log tx.hash with
  | none =>
      have missed := List.find?_eq_none.mp found _ stored
      exact absurd (beq_iff_eq.mpr ownHash) missed
  | some receipt =>
      have hash : receipt.txHash = tx.hash := by
        simpa using List.find?_some found
      obtain ⟨other, among, inOther⟩ :=
        List.mem_flatMap.mp (List.mem_of_find?_eq_some found)
      obtain ⟨plain, inPlain, rfl⟩ := List.mem_map.mp (List.mem_reverse.mp inOther)
      refine ⟨_, rfl, hash, other, among, rfl, (kinds other tx.hash).mp ?_⟩
      exact List.mem_map.mpr ⟨plain, inPlain, hash⟩

end Receipts

namespace Chain

variable {F : Type} [F32 F]

/-- After genesis in a new database and any imports, reorganizations and restarts, each
transaction that is listed in a block of the API has a receipt there, which names the transaction
and a block of the run that contains it.
-/
theorem receipt_of_listed (host : Host F) (format : LogFormat) (decodeError : Bytes → String)
    (reads : ∀ receipt, format.fromSlice (host.receiptJson receipt) = some receipt.toJson)
    {genesis : BlockHeader} {ops : List (HeadOp F)}
    (collisionFree : Set.InjOn (BlockHeader.hash host.crypto) (runHeaders genesis ops))
    (readBack : ReadBack host.blocks (runBlocks genesis ops)) {chain final : Chain F}
    (fresh : Archived host [] chain.db)
    (ran : final = ops.foldl (HeadOp.run host) (chain.initGenesis host genesis))
    {number : String} {block : RpcBlock}
    (shown : ethGetBlockByNumber host.crypto host.blocks final.db number = .ok (some block))
    : ∀ txHash ∈ block.transactions, ∃ receipt,
        ethGetTransactionReceipt format final.db decodeError txHash = .ok (some receipt)
        ∧ receipt.transactionHash = txHash
        ∧ ∃ other ∈ runBlocks genesis ops,
            receipt.blockHash = displayHash (other.hash host.crypto)
            ∧ txHash
              ∈ other.body.transactions.map (fun tx => displayHash tx.hash) := by
  obtain ⟨log, archived, among⟩ := @archiveOf_run F _ host genesis ops chain fresh
  rw [← ran] at archived
  have tellsApart : Set.InjOn (BlockHeader.hash host.crypto)
      { header | ∃ applied ∈ log, applied.block.header = header } := by
    refine collisionFree.mono ?_
    rintro header ⟨applied, member, rfl⟩
    exact ⟨applied.block, among applied member, rfl⟩
  have bodies : ∀ applied ∈ log, host.blocks.body.RoundTripsAt applied.block.body :=
    fun applied member => (readBack _ (among applied member)).2
  obtain ⟨applied, member, lists⟩ : ∃ applied ∈ log,
      block.transactions
        = applied.block.body.transactions.map (fun tx => displayHash tx.hash) := by
    obtain ⟨blockNum, hash, indexed, found⟩ := exists_number_of_shown shown
    rw [archived.getBlockHashByNumber, Except.ok.injEq, Option.map_eq_some_iff] at indexed
    obtain ⟨applied, canonical, rfl⟩ := indexed
    exact ⟨applied, List.mem_of_find?_eq_some canonical,
      transactions_of_shown found (archived.getBody tellsApart bodies canonical)⟩
  intro txHash listed
  rw [lists] at listed
  obtain ⟨tx, inBody, rfl⟩ := List.mem_map.mp listed
  obtain ⟨receipt, latest, hash, other, inLog, named, contains⟩ :=
    exists_latestReceipt host.crypto member inBody
  refine ⟨.ofReceipt receipt, ?_, ?_, other.block, among other inLog, ?_, ?_⟩
  · rw [ethGetTransactionReceipt_eq archived reads, latest]
    rfl
  · rw [RpcReceipt.ofReceipt, hash]
  · rw [RpcReceipt.ofReceipt, named]
  · obtain ⟨same, present, equal⟩ := List.mem_map.mp contains
    exact List.mem_map.mpr ⟨same, present, by rw [equal]⟩

/-- A host that can store the block with a move, and reads receipts back. -/
def moveLoggingHost : Host Milli :=
  { moveHost with receiptJson := Codec.enumerated.encode }

def moveLoggingChain : Chain Milli :=
  moveOps.foldl (HeadOp.run moveLoggingHost) (genesisChain.initGenesis moveLoggingHost (.genesis 0))

/-- The block with the move, as it is shown. -/
def shownMove : RpcBlock :=
  .fromBlock moveLoggingHost.crypto moveOnGenesis.header moveOnGenesis.body

theorem shown_move
    : ethGetBlockByNumber moveLoggingHost.crypto moveLoggingHost.blocks moveLoggingChain.db "0x1"
      = .ok (some shownMove) := by
  decide +kernel

theorem readBack_move : ReadBack moveLoggingHost.blocks (runBlocks (.genesis 0) moveOps) := by
  unfold ReadBack
  decide +kernel

theorem collisionFree_move
    : Set.InjOn (BlockHeader.hash moveLoggingHost.crypto) (runHeaders (.genesis 0) moveOps) :=
  injOn_runHeaders (by decide +kernel)

theorem reads_move (receipt : TransactionReceipt)
    : loggingFormat.fromSlice (moveLoggingHost.receiptJson receipt) = some receipt.toJson := by
  have read := @Codec.enumerated_roundTrips TransactionReceipt _ receipt
  simp only [loggingFormat, moveLoggingHost, show Codec.enumerated.decode _ = _ from read]
  rfl

/-- The text of the hash of the move. -/
def moveHash : String := displayHash (SignedTransaction.action 9 1 0 (.move 1000 0 0)).hash

theorem moveHash_listed : moveHash ∈ shownMove.transactions := List.mem_singleton_self _

theorem receipt_of_listed_move
    : ∃ receipt,
        ethGetTransactionReceipt loggingFormat moveLoggingChain.db (fun _ => "") moveHash
          = .ok (some receipt)
        ∧ receipt.transactionHash = moveHash
        ∧ ∃ other ∈ runBlocks (.genesis 0) moveOps,
            receipt.blockHash = displayHash (other.hash moveLoggingHost.crypto)
            ∧ moveHash ∈ other.body.transactions.map (fun tx => displayHash tx.hash) :=
  @receipt_of_listed Milli _ moveLoggingHost loggingFormat (fun _ => "") reads_move
    (.genesis 0) moveOps collisionFree_move readBack_move genesisChain moveLoggingChain
    ⟨rfl, rfl, rfl⟩ rfl "0x1" shownMove shown_move moveHash moveHash_listed

end Chain

end VeloChain
