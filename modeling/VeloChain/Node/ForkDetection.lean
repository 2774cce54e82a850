import VeloChain.Node.CanonicalIndex

/-! Fork detection: the search for the highest common ancestor of another branch and the head.
The search goes down the branch for as many blocks as the chain is high, and takes a block
for canonical when the index at its number leads to it, also above the head.
-/

namespace VeloChain

namespace Chain

/-- The headers that can be read from the database. -/
def storedHeaders (codecs : BlockCodecs) (db : Database) : Set BlockHeader :=
  { header | ∃ hash, db.getHeader codecs hash = .ok (some header) }

/-- Headers are stored under their hashes, and up to the head the index is the canonical
chain.
-/
structure HeaderStore (crypto : Crypto) (codecs : BlockCodecs) (db : Database)
    (head : BlockHeader) : Prop where
  keyed
    : ∀ hash header, db.getHeader codecs hash = .ok (some header) → header.hash crypto = hash
  canonical
    : HashChain.Canonical (headerLinks crypto) (storedHeaders codecs db) (indexEntry db)
        (fun _ => True) head

/-- The index can be read at the number of a header and does not lead to it. -/
def Unindexed (crypto : Crypto) (db : Database) (header : BlockHeader) : Prop :=
  ∃ entry, db.getBlockHashByNumber header.number = .ok entry
    ∧ entry ≠ some (header.hash crypto)

variable {crypto : Crypto} {codecs : BlockCodecs} {db : Database} {head : BlockHeader}

section Search

variable {block : BlockHeader} {steps : Nat}
  (known : db.getHeader codecs (block.hash crypto) = .ok (some block))

include known

/-- The search stops at a block that the index leads to. -/
theorem findCommonAncestor_of_indexed
    (indexed : db.getBlockHashByNumber block.number = .ok (some (block.hash crypto)))
    : findCommonAncestor codecs db (steps + 1) (block.hash crypto) = .ok block.number := by
  simp only [findCommonAncestor, known, indexed, if_true]

/-- From every other block whose entry can be read it goes on to the parent. -/
theorem findCommonAncestor_of_unindexed (unindexed : Unindexed crypto db block)
    : findCommonAncestor codecs db (steps + 1) (block.hash crypto)
      = findCommonAncestor codecs db steps block.parentHash := by
  obtain ⟨entry, read, other⟩ := unindexed
  simp only [findCommonAncestor, known, read, other, if_false]

theorem number_of_findCommonAncestor (indexed : ¬ Unindexed crypto db block) {number : UInt64}
    (found : findCommonAncestor codecs db (steps + 1) (block.hash crypto) = .ok number)
    : block.number = number := by
  cases read : db.getBlockHashByNumber block.number with
  | error e => simp [findCommonAncestor, known, read] at found
  | ok entry =>
      have leads : entry = some (block.hash crypto) := by
        by_contra differs
        exact indexed ⟨entry, read, differs⟩
      rw [findCommonAncestor_of_indexed known (read.trans (congrArg Except.ok leads))] at found
      exact Except.ok.inj found

end Search

namespace HeaderStore

variable (store : HeaderStore crypto codecs db head)

include store

theorem getHeader {header : BlockHeader} (member : header ∈ storedHeaders codecs db)
    : db.getHeader codecs (header.hash crypto) = .ok (some header) := by
  obtain ⟨hash, found⟩ := member
  rwa [store.keyed hash header found]

/-- A header is determined by the hash it is stored under. -/
theorem injOn_hash : Set.InjOn (BlockHeader.hash crypto) (storedHeaders codecs db) := by
  intro left isLeft right isRight same
  have found := store.getHeader isLeft
  rw [same, store.getHeader isRight] at found
  exact (Option.some.inj (Except.ok.inj found)).symm

/-- At each height up to the head the index leads to the ancestor of that height. -/
theorem index_ancestor {number : UInt64} (reached : number ≤ head.number)
    : ∃ ancestor,
        HashChain.Ancestor (headerLinks crypto) (storedHeaders codecs db) ancestor head
        ∧ ancestor.number = number
        ∧ db.getBlockHashByNumber number = .ok (some (ancestor.hash crypto)) := by
  obtain ⟨ancestor, above, height, entry, _⟩ :=
    store.canonical.indexed number.toNat (UInt64.le_iff_toNat_le.mp reached)
  rw [indexEntry, UInt64.ofNat_toNat] at entry
  exact ⟨ancestor, above, UInt64.toNat_inj.mp height, entry⟩

/-- An ancestor of the head is indexed. -/
theorem indexed_of_ancestor {ancestor : BlockHeader}
    (above
      : HashChain.Ancestor (headerLinks crypto) (storedHeaders codecs db) ancestor head)
    : db.getBlockHashByNumber ancestor.number = .ok (some (ancestor.hash crypto)) := by
  obtain ⟨found, above', number, entry⟩ :=
    store.index_ancestor (UInt64.le_iff_toNat_le.mpr above.height_le)
  rwa [above.unique store.injOn_hash above' (congrArg UInt64.toNat number.symm)] at entry ⊢

/-- A block up to the head that is no ancestor of the head is not indexed. -/
theorem unindexed_of_not_ancestor {header : BlockHeader}
    (member : header ∈ storedHeaders codecs db) (reached : header.number ≤ head.number)
    (apart
      : ¬ HashChain.Ancestor (headerLinks crypto) (storedHeaders codecs db) header head)
    : Unindexed crypto db header := by
  obtain ⟨ancestor, above, _, entry⟩ := store.index_ancestor reached
  refine ⟨_, entry, fun same => apart ?_⟩
  rwa [← store.injOn_hash above.member_older member (Option.some.inj same)]

/-- The search finds the highest common ancestor exactly when its bound reaches that far down
(or the ancestor is genesis), and no block of the branch above the head that it comes by is
indexed. By induction on the bound, one block of the branch at a time.
-/
theorem findCommonAncestor_iff {block common : BlockHeader}
    (highest
      : HashChain.HighestCommon (headerLinks crypto) (storedHeaders codecs db) common block
          head)
    (steps : Nat)
    : findCommonAncestor codecs db steps (block.hash crypto) = .ok common.number
      ↔ (common.number = 0 ∨ block.number.toNat - common.number.toNat < steps)
        ∧ ∀ above,
            HashChain.Ancestor (headerLinks crypto) (storedHeaders codecs db) above block →
            head.number < above.number →
            block.number.toNat - above.number.toNat < steps →
            Unindexed crypto db above := by
  induction steps generalizing block with
  | zero =>
      simp only [findCommonAncestor, Except.ok.injEq, Nat.not_lt_zero, or_false, false_imp_iff,
        implies_true, and_true]
      exact eq_comm
  | succ steps ih =>
      have member := highest.ofLeft.member_newer
      have known := store.getHeader member
      have onChain : common.number ≤ head.number :=
        UInt64.le_iff_toNat_le.mpr highest.ofRight.height_le
      by_cases arrived : common = block
      · subst arrived
        rw [findCommonAncestor_of_indexed known (store.indexed_of_ancestor highest.ofRight)]
        simp only [Nat.sub_self, Nat.succ_pos, or_true, true_and, true_iff]
        intro above below higher
        have reached : above.number.toNat ≤ common.number.toNat := below.height_le
        have := UInt64.lt_iff_toNat_lt.mp higher
        have := UInt64.le_iff_toNat_le.mp onChain
        omega
      · obtain ⟨parent, isParent, linked, height⟩ := highest.ofLeft.exists_parent arrived
        have below := highest.parent store.injOn_hash arrived isParent linked height
        have lower : common.number.toNat ≤ parent.number.toNat := below.ofLeft.height_le
        simp only [headerLinks] at height
        have apart := highest.not_ancestor (by simp only [headerLinks, height]; omega)
        by_cases unindexed : Unindexed crypto db block
        · -- the walk goes on with the parent, and the branch has lost one block
          rw [findCommonAncestor_of_unindexed known unindexed]
          simp only [headerLinks] at linked
          rw [linked, ih below]
          refine and_congr (or_congr_right (by omega)) ?_
          constructor
          · intro rest above descends higher near
            cases descends with
            | self => exact unindexed
            | @step parent' _ descends _ linked' _ =>
                obtain rfl : parent' = parent :=
                  store.injOn_hash descends.member_newer isParent (linked'.symm.trans linked)
                have reached : above.number.toNat ≤ parent'.number.toNat := descends.height_le
                exact rest above descends higher (by omega)
          · intro all above descends higher near
            exact all above (.step descends member linked height) higher (by omega)
        · have higher : head.number < block.number := by
            by_contra reached
            exact unindexed
              (store.unindexed_of_not_ancestor member (UInt64.not_lt.mp reached) apart)
          refine iff_of_false ?_ ?_
          · intro found
            rw [number_of_findCommonAncestor known unindexed found] at higher
            exact absurd higher (UInt64.not_lt.mpr onChain)
          · rintro ⟨_, all⟩
            exact unindexed (all block (.self member) higher (by omega))

end HeaderStore

/-- The branch of an incoming block is recognized: its parent is not indexed, the walk from
there reaches the common ancestor (or stops on the way to genesis), and no block of the branch
above the head that the walk comes by is indexed.
-/
def Recognizable (crypto : Crypto) (codecs : BlockCodecs) (db : Database)
    (head parent common : BlockHeader) : Prop :=
  Unindexed crypto db parent
  ∧ (common.number = 0
      ∨ parent.number.toNat - common.number.toNat < head.number.toNat)
  ∧ ∀ above,
      HashChain.Ancestor (headerLinks crypto) (storedHeaders codecs db) above parent →
      head.number < above.number →
      parent.number.toNat - above.number.toNat < head.number.toNat →
      Unindexed crypto db above

/-- For a block higher than the head whose parent is stored and not on the chain of the head,
fork detection finds the highest common ancestor exactly when the branch is recognizable.
-/
theorem detectFork_iff (store : HeaderStore crypto codecs db head)
    {incoming parent common : BlockHeader} (higher : head.number < incoming.number)
    (found : db.getHeader codecs incoming.parentHash = .ok (some parent))
    (apart
      : ¬ HashChain.Ancestor (headerLinks crypto) (storedHeaders codecs db) parent head)
    (highest
      : HashChain.HighestCommon (headerLinks crypto) (storedHeaders codecs db) common parent
          head)
    : detectFork crypto codecs db head incoming = .ok (some common.number)
      ↔ Recognizable crypto codecs db head parent common := by
  have own : parent.hash crypto = incoming.parentHash := store.keyed _ _ found
  have notHead : incoming.parentHash ≠ head.hash crypto := by
    intro same
    have atHead := store.getHeader store.canonical.member
    rw [← same, found] at atHead
    obtain rfl := Option.some.inj (Except.ok.inj atHead)
    exact apart (.self store.canonical.member)
  unfold Recognizable
  rw [← store.findCommonAncestor_iff highest, own]
  unfold detectFork
  rw [if_neg notHead, if_neg (UInt64.not_le.mpr higher)]
  simp only [found]
  cases read : db.getBlockHashByNumber parent.number with
  | error e => simp [Unindexed, read]
  | ok entry =>
      by_cases leads : entry = some incoming.parentHash
      · simp [Unindexed, read, leads, own]
      · have unindexed : Unindexed crypto db parent := ⟨entry, read, own ▸ leads⟩
        simp only [leads, if_false, unindexed, true_and]
        cases findCommonAncestor codecs db head.number.toNat incoming.parentHash with
        | error e => simp
        | ok forkPoint => simp

/-- A block whose parent the index leads to is not taken for one of another branch. -/
theorem detectFork_of_indexed {incoming parent : BlockHeader}
    (found : db.getHeader codecs incoming.parentHash = .ok (some parent))
    (indexed : db.getBlockHashByNumber parent.number = .ok (some incoming.parentHash))
    : detectFork crypto codecs db head incoming = .ok none := by
  unfold detectFork
  split_ifs
  · rfl
  · rfl
  · simp only [found, indexed, if_true]

/-- Fork detection finds the highest common ancestor of every block that is higher than the
head and whose parent is stored and not on the chain of the head.
-/
def FindsForkPoint (crypto : Crypto) (codecs : BlockCodecs) (db : Database)
    (head : BlockHeader) : Prop :=
  ∀ incoming parent common : BlockHeader,
    head.number < incoming.number →
    db.getHeader codecs incoming.parentHash = .ok (some parent) →
    ¬ HashChain.Ancestor (headerLinks crypto) (storedHeaders codecs db) parent head →
    HashChain.HighestCommon (headerLinks crypto) (storedHeaders codecs db) common parent head →
    detectFork crypto codecs db head incoming = .ok (some common.number)

/-- Storing blocks one after another files their headers under their hashes. -/
theorem keyed_putBlocks {blocks : List Block}
    (sound : ∀ block ∈ blocks, codecs.header.RoundTripsAt block.header)
    (keyed
      : ∀ hash header, db.getHeader codecs hash = .ok (some header) →
          header.hash crypto = hash)
    : ∀ hash header,
        (blocks.foldl (fun db block => db.putBlock crypto codecs block) db).getHeader codecs hash
          = .ok (some header) →
        header.hash crypto = hash := by
  induction blocks generalizing db with
  | nil => exact keyed
  | cons block rest ih =>
      obtain ⟨first, later⟩ := List.forall_mem_cons.mp sound
      apply ih later
      intro hash header found
      rw [Database.getHeader_putBlock crypto first] at found
      split at found
      next same =>
        obtain rfl := Option.some.inj (Except.ok.inj found)
        exact same.symm
      next => exact keyed hash header found

/-- Storing blocks one after another keeps each header that no other one shares its hash with. -/
theorem getHeader_putBlocks {blocks : List Block} {header : BlockHeader}
    (sound : ∀ block ∈ blocks, codecs.header.RoundTripsAt block.header)
    (alone : ∀ block ∈ blocks, block.hash crypto = header.hash crypto → block.header = header)
    (stored
      : db.getHeader codecs (header.hash crypto) = .ok (some header)
        ∨ header ∈ blocks.map Block.header)
    : (blocks.foldl (fun db block => db.putBlock crypto codecs block) db).getHeader codecs
          (header.hash crypto)
        = .ok (some header) := by
  induction blocks generalizing db with
  | nil => exact stored.resolve_right List.not_mem_nil
  | cons block rest ih =>
      obtain ⟨first, later⟩ := List.forall_mem_cons.mp sound
      obtain ⟨firstAlone, restAlone⟩ := List.forall_mem_cons.mp alone
      apply ih later restAlone
      rw [Database.getHeader_putBlock crypto first]
      split
      next same => exact .inl (by rw [firstAlone same.symm])
      next other =>
        apply stored.imp_right
        intro member
        apply (List.mem_cons.mp member).resolve_left
        rintro rfl
        exact other rfl

-----------------------------------------------------------------------------------------
-- Branches that are recognized and branches that are not
-----------------------------------------------------------------------------------------

/-- A header on top of another one, told from its siblings by a tag. -/
def childHeader (parent : BlockHeader) (tag : BitVec 64) : BlockHeader :=
  { BlockHeader.genesis 0 with
    parentHash := parent.hash .disclosing
    number := parent.number + 1
    nonce := tag }

theorem childHeader_ne (parent : BlockHeader) {tag tag' : BitVec 64} (other : tag ≠ tag')
    : childHeader parent tag ≠ childHeader parent tag' :=
  fun same => other (congrArg BlockHeader.nonce same)

/-- Two branches from genesis; the first one splits into three after its first block. -/
def trunk1 : BlockHeader := childHeader (.genesis 0) 1

def trunk2 : BlockHeader := childHeader trunk1 2

def left2 : BlockHeader := childHeader trunk1 12

def left3 : BlockHeader := childHeader left2 13

def right2 : BlockHeader := childHeader trunk1 22

def right3 : BlockHeader := childHeader right2 23

def other1 : BlockHeader := childHeader (.genesis 0) 31

/-- The formats of a database for these headers. -/
def forkCodecs : BlockCodecs :=
  (Host.reference
    ([.genesis 0, trunk1, trunk2, left2, left3, right2, right3, other1].map
      (Block.new · []))).blocks

/-- A database in which headers were stored one after another. -/
def databaseOf (headers : List BlockHeader) : Database :=
  (headers.map (Block.new · [])).foldl
    (fun db block => db.putBlock .disclosing forkCodecs block) .empty

/-- The headers that these formats are made for. -/
def forkHeaders : List BlockHeader :=
  [.genesis 0, trunk1, trunk2, left2, left3, right2, right3, other1]

theorem roundTripsAt_forkCodecs {header : BlockHeader} (member : header ∈ forkHeaders)
    : forkCodecs.header.RoundTripsAt header := by
  have reads := Codec.roundTripsAt_ofTable member (by decide)
  exact reads

theorem nodup_forkHeaders : (forkHeaders.map (BlockHeader.hash .disclosing)).Nodup := by
  decide +kernel

/-- The index leads to the last header with the number. -/
theorem getBlockHashByNumber_databaseOf (headers : List BlockHeader) (number : UInt64)
    : (databaseOf headers).getBlockHashByNumber number
      = .ok (((headers.filter (·.number = number)).getLast?).map
          (BlockHeader.hash .disclosing)) := by
  induction headers using List.reverseRecOn with
  | nil => rfl
  | append_singleton headers last ih =>
      have stored
          : databaseOf (headers ++ [last])
            = (databaseOf headers).putBlock .disclosing forkCodecs (Block.new last []) := by
        simp only [databaseOf, List.map_append, List.foldl_append, List.map_cons, List.map_nil,
          List.foldl_cons, List.foldl_nil]
      rw [stored, Database.getBlockHashByNumber_putBlock, ih, List.filter_append]
      by_cases same : last.number = number
      · simp [same, Block.new, Block.number, Block.hash]
      · simp [same, Ne.symm same, Block.new, Block.number]

section DatabaseOf

variable {headers : List BlockHeader} (known : headers ⊆ forkHeaders)

include known

theorem keyed_databaseOf
    : ∀ hash header,
        (databaseOf headers).getHeader forkCodecs hash = .ok (some header) →
        header.hash .disclosing = hash := by
  apply keyed_putBlocks
  · simp only [List.forall_mem_map]
    exact fun header isHeader => roundTripsAt_forkCodecs (known isHeader)
  · intro hash header found
    exact absurd found nofun

theorem getHeader_databaseOf
    : ∀ header ∈ headers,
        (databaseOf headers).getHeader forkCodecs (header.hash .disclosing)
          = .ok (some header) := by
  intro header member
  apply getHeader_putBlocks
  · simp only [List.forall_mem_map]
    exact fun other isOther => roundTripsAt_forkCodecs (known isOther)
  · simp only [List.forall_mem_map]
    exact fun other isOther same =>
      List.inj_on_of_nodup_map nodup_forkHeaders (known isOther) (known member) same
  · exact .inr (by simpa [Block.new, Function.comp_def] using member)

end DatabaseOf

/-- The database and the head of a node that has gone back to genesis from the first branch and
on to the other one, with an old entry above its head.
-/
def staleDatabase : Database := databaseOf [.genesis 0, trunk1, trunk2, other1]

/-- A database with three branches; the head is the end of the shortest one. -/
def threeBranches : Database :=
  databaseOf [.genesis 0, trunk1, left2, left3, right2, right3, trunk2]

theorem getHeader_staleDatabase
    : ∀ header ∈ [.genesis 0, trunk1, trunk2, other1],
        staleDatabase.getHeader forkCodecs (header.hash .disclosing) = .ok (some header) :=
  getHeader_databaseOf (by simp [forkHeaders])

theorem getHeader_threeBranches
    : ∀ header ∈ [.genesis 0, trunk1, left2, left3, right2, right3, trunk2],
        threeBranches.getHeader forkCodecs (header.hash .disclosing) = .ok (some header) :=
  getHeader_databaseOf (by simp [forkHeaders])

/-- A stored header and its stored child. -/
theorem ancestor_childHeader {db : Database} {parent : BlockHeader} {tag : BitVec 64}
    (hasParent : db.getHeader forkCodecs (parent.hash .disclosing) = .ok (some parent))
    (hasChild
      : db.getHeader forkCodecs ((childHeader parent tag).hash .disclosing)
        = .ok (some (childHeader parent tag)))
    (height : (childHeader parent tag).number.toNat = parent.number.toNat + 1)
    : HashChain.Ancestor (headerLinks .disclosing) (storedHeaders forkCodecs db) parent
        (childHeader parent tag) :=
  .step (.self ⟨_, hasParent⟩) ⟨_, hasChild⟩ rfl height

section StaleDatabase

theorem staleDatabase_trunk1
    : HashChain.Ancestor (headerLinks .disclosing) (storedHeaders forkCodecs staleDatabase)
        (.genesis 0) trunk1 :=
  ancestor_childHeader (getHeader_staleDatabase _ (by simp))
    (getHeader_staleDatabase trunk1 (by simp)) rfl

theorem staleDatabase_trunk2
    : HashChain.Ancestor (headerLinks .disclosing) (storedHeaders forkCodecs staleDatabase)
        trunk1 trunk2 :=
  ancestor_childHeader (getHeader_staleDatabase _ (by simp))
    (getHeader_staleDatabase trunk2 (by simp)) rfl

theorem staleDatabase_other1
    : HashChain.Ancestor (headerLinks .disclosing) (storedHeaders forkCodecs staleDatabase)
        (.genesis 0) other1 :=
  ancestor_childHeader (getHeader_staleDatabase _ (by simp))
    (getHeader_staleDatabase other1 (by simp)) rfl

/-- The index up to the head. -/
theorem index_staleDatabase
    : indexEntry staleDatabase 0 ((BlockHeader.genesis 0).hash .disclosing)
      ∧ indexEntry staleDatabase 1 (other1.hash .disclosing) := by
  unfold indexEntry staleDatabase
  simp only [getBlockHashByNumber_databaseOf]
  exact ⟨rfl, rfl⟩

/-- The old entry above the head. -/
theorem stale_staleDatabase
    : staleDatabase.getBlockHashByNumber trunk2.number = .ok (some (trunk2.hash .disclosing)) :=
  getBlockHashByNumber_databaseOf _ _

theorem headerStore_staleDatabase
    : HeaderStore .disclosing forkCodecs staleDatabase other1 := by
  refine ⟨keyed_databaseOf (by simp [forkHeaders]), staleDatabase_other1.member_newer, ?_⟩
  intro n reached
  have bound : n ≤ 1 := reached
  obtain ⟨first, second⟩ := index_staleDatabase
  rcases (by omega : n = 0 ∨ n = 1) with rfl | rfl
  · exact ⟨.genesis 0, staleDatabase_other1, rfl, first, trivial⟩
  · exact ⟨other1, .self staleDatabase_other1.member_newer, rfl, second, trivial⟩

/-- The first branch and the head part at genesis. -/
theorem highestCommon_staleDatabase
    : HashChain.HighestCommon (headerLinks .disclosing) (storedHeaders forkCodecs staleDatabase)
        (.genesis 0) trunk2 other1 :=
  .of_fork headerStore_staleDatabase.injOn_hash staleDatabase_trunk2
    (.self staleDatabase_other1.member_newer) staleDatabase_trunk1 staleDatabase_other1
    rfl rfl (childHeader_ne _ (by decide))

end StaleDatabase

section ThreeBranches

theorem threeBranches_trunk1
    : HashChain.Ancestor (headerLinks .disclosing) (storedHeaders forkCodecs threeBranches)
        (.genesis 0) trunk1 :=
  ancestor_childHeader (getHeader_threeBranches _ (by simp))
    (getHeader_threeBranches trunk1 (by simp)) rfl

/-- Both children of the first block. -/
theorem threeBranches_fork
    : HashChain.Ancestor (headerLinks .disclosing) (storedHeaders forkCodecs threeBranches)
        trunk1 trunk2
      ∧ HashChain.Ancestor (headerLinks .disclosing) (storedHeaders forkCodecs threeBranches)
          trunk1 left2 :=
  ⟨ancestor_childHeader (getHeader_threeBranches _ (by simp))
      (getHeader_threeBranches trunk2 (by simp)) rfl,
    ancestor_childHeader (getHeader_threeBranches _ (by simp))
      (getHeader_threeBranches left2 (by simp)) rfl⟩

theorem threeBranches_left3
    : HashChain.Ancestor (headerLinks .disclosing) (storedHeaders forkCodecs threeBranches)
        left2 left3 :=
  ancestor_childHeader (getHeader_threeBranches _ (by simp))
    (getHeader_threeBranches left3 (by simp)) rfl

/-- The index up to the head. -/
theorem index_threeBranches
    : indexEntry threeBranches 0 ((BlockHeader.genesis 0).hash .disclosing)
      ∧ indexEntry threeBranches 1 (trunk1.hash .disclosing)
      ∧ indexEntry threeBranches 2 (trunk2.hash .disclosing) := by
  unfold indexEntry threeBranches
  simp only [getBlockHashByNumber_databaseOf]
  exact ⟨rfl, rfl, rfl⟩

theorem headerStore_threeBranches
    : HeaderStore .disclosing forkCodecs threeBranches trunk2 := by
  obtain ⟨step, _⟩ := threeBranches_fork
  have path := threeBranches_trunk1.trans step
  refine ⟨keyed_databaseOf (by simp [forkHeaders]), path.member_newer, ?_⟩
  intro n reached
  have bound : n ≤ 2 := reached
  obtain ⟨first, second, third⟩ := index_threeBranches
  rcases (by omega : n = 0 ∨ n = 1 ∨ n = 2) with rfl | rfl | rfl
  · exact ⟨.genesis 0, path, rfl, first, trivial⟩
  · exact ⟨trunk1, step, rfl, second, trivial⟩
  · exact ⟨trunk2, .self path.member_newer, rfl, third, trivial⟩

theorem left2_ne_trunk2 : left2 ≠ trunk2 :=
  childHeader_ne _ (by decide)

/-- What descends from the second block of the left branch parts from the head at the first
block.
-/
theorem highestCommon_threeBranches {header : BlockHeader}
    (descends
      : HashChain.Ancestor (headerLinks .disclosing) (storedHeaders forkCodecs threeBranches)
          left2 header)
    : HashChain.HighestCommon (headerLinks .disclosing) (storedHeaders forkCodecs threeBranches)
        trunk1 header trunk2 := by
  obtain ⟨right, left⟩ := threeBranches_fork
  exact .of_fork headerStore_threeBranches.injOn_hash descends (.self right.member_newer) left
    right rfl rfl left2_ne_trunk2

end ThreeBranches

/-- A block above the head is not on the chain of the head. -/
theorem not_ancestor_of_higher {crypto : Crypto} {records : Set BlockHeader}
    {header head : BlockHeader} (higher : head.number.toNat < header.number.toNat)
    : ¬ HashChain.Ancestor (headerLinks crypto) records header head :=
  fun above => Nat.not_le_of_lt higher above.height_le

/-- An old entry above the head hides a branch, and a branch as long as the chain is traced to
genesis although it parts later.
-/
theorem detectFork_fails_on_longBranch
    : (HeaderStore .disclosing forkCodecs staleDatabase other1
        ∧ ¬ FindsForkPoint .disclosing forkCodecs staleDatabase other1)
      ∧ HeaderStore .disclosing forkCodecs threeBranches trunk2
      ∧ ¬ FindsForkPoint .disclosing forkCodecs threeBranches trunk2 := by
  refine ⟨⟨headerStore_staleDatabase, ?_⟩, headerStore_threeBranches, ?_⟩
  · intro finds
    have missed : detectFork .disclosing forkCodecs staleDatabase other1 (childHeader trunk2 3)
        = .ok none :=
      detectFork_of_indexed (getHeader_staleDatabase trunk2 (by simp)) stale_staleDatabase
    have found := finds (childHeader trunk2 3) trunk2 (.genesis 0) (by decide)
      (getHeader_staleDatabase trunk2 (by simp)) (not_ancestor_of_higher (by decide))
      highestCommon_staleDatabase
    exact absurd (missed.symm.trans found) (by decide)
  · intro finds
    have tooLow : detectFork .disclosing forkCodecs threeBranches trunk2 (childHeader left3 14)
        = .ok (some 0) := by decide +kernel
    have found := finds (childHeader left3 14) left3 trunk1 (by decide)
      (getHeader_threeBranches left3 (by simp)) (not_ancestor_of_higher (by decide))
      (highestCommon_threeBranches threeBranches_left3)
    exact absurd (tooLow.symm.trans found) (by decide)

theorem detectFork_iff_left2
    : detectFork .disclosing forkCodecs threeBranches trunk2 left3 = .ok (some 1)
      ↔ Recognizable .disclosing forkCodecs threeBranches trunk2 left2 trunk1 := by
  obtain ⟨right, left⟩ := threeBranches_fork
  have parts := highestCommon_threeBranches (.self left.member_newer)
  have inj := headerStore_threeBranches.injOn_hash
  have apart
      : ¬ HashChain.Ancestor (headerLinks .disclosing) (storedHeaders forkCodecs threeBranches)
          left2 trunk2 :=
    fun above => left2_ne_trunk2 (above.unique inj (.self right.member_newer) rfl)
  have found
      : threeBranches.getHeader forkCodecs (childHeader left2 13).parentHash
        = .ok (some left2) :=
    getHeader_threeBranches left2 (by simp)
  exact detectFork_iff headerStore_threeBranches (by decide) found apart parts

end Chain

end VeloChain
