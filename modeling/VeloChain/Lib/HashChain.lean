import Mathlib.Data.List.Induction
import Mathlib.Data.Set.Function

/-! Chains of records linked by hashes, with an index from heights to hashes.
A record names its parent by hash and stands one higher. Where the hash has no collisions
among the records of interest, a record has at most one ancestor at each height, and an
index of the ancestors survives growing the chain and moving its head back.
-/

namespace HashChain

variable {H K : Type*}

/-- How records are linked: their own hash, the hash of their parent, and their height. -/
structure Links (H K : Type*) where
  hash : H → K
  parentHash : H → K
  height : H → Nat

variable (links : Links H K) (records : Set H)

/-- (Ancestor older newer) holds of a record and itself and of everything its parent
descends from.
-/
inductive Ancestor : H → H → Prop
  | self {record : H} (member : record ∈ records) : Ancestor record record
  | step {older parent record : H} (above : Ancestor older parent)
      (member : record ∈ records) (linked : links.parentHash record = links.hash parent)
      (height : links.height record = links.height parent + 1) : Ancestor older record

/-- Up to the height of the head, the index leads to ancestors of the head that are kept. -/
structure Canonical (index : Nat → K → Prop) (kept : H → Prop) (head : H) : Prop where
  member : head ∈ records
  indexed
    : ∀ n ≤ links.height head, ∃ ancestor,
        Ancestor links records ancestor head
        ∧ links.height ancestor = n
        ∧ index n (links.hash ancestor)
        ∧ kept ancestor

variable {links} {records}

theorem Ancestor.member_older {older newer : H} (h : Ancestor links records older newer)
    : older ∈ records := by
  induction h with
  | self member => exact member
  | step _ _ _ _ ih => exact ih

theorem Ancestor.member_newer {older newer : H} (h : Ancestor links records older newer)
    : newer ∈ records := by
  cases h with
  | self member => exact member
  | step _ member _ _ => exact member

theorem Ancestor.trans {older middle newer : H} (below : Ancestor links records older middle)
    (above : Ancestor links records middle newer)
    : Ancestor links records older newer := by
  induction above with
  | self => exact below
  | step _ member linked height ih => exact .step ih member linked height

/-- A record that descends from another one has a parent. -/
theorem Ancestor.exists_parent {older newer : H} (h : Ancestor links records older newer)
    (other : older ≠ newer)
    : ∃ parent ∈ records,
        links.parentHash newer = links.hash parent
        ∧ links.height newer = links.height parent + 1 := by
  cases h with
  | self => exact absurd rfl other
  | @step parent _ above _ linked height => exact ⟨parent, above.member_newer, linked, height⟩

theorem Ancestor.height_le {older newer : H} (h : Ancestor links records older newer)
    : links.height older ≤ links.height newer := by
  induction h with
  | self => exact Nat.le_refl _
  | step _ _ _ height ih => omega

section CollisionFree

variable (collisionFree : Set.InjOn links.hash records)

include collisionFree

/-- Of two ancestors the lower one is an ancestor of the other, by induction on the descent
from the higher one.
-/
theorem Ancestor.linear {lower higher head : H} (hh : Ancestor links records higher head)
    (hl : Ancestor links records lower head)
    (below : links.height lower ≤ links.height higher)
    : Ancestor links records lower higher := by
  induction hh with
  | self _ => exact hl
  | @step parent record above member linked height ih =>
      cases hl with
      | self =>
          have reached := above.height_le
          omega
      | @step parent' _ above' _ linked' _ =>
          have same : parent' = parent :=
            collisionFree above'.member_newer above.member_newer (linked'.symm.trans linked)
          exact ih (same ▸ above')

/-- At most one ancestor stands at each height. -/
theorem Ancestor.unique {left right head : H} (hl : Ancestor links records left head)
    (hr : Ancestor links records right head)
    (same : links.height left = links.height right)
    : left = right := by
  have descends := hr.linear collisionFree hl (Nat.le_of_eq same)
  cases descends with
  | self => rfl
  | step above _ _ height =>
      have reached := above.height_le
      omega

/-- Moving the head back to an ancestor keeps the index, whose higher entries go stale. -/
theorem Canonical.rewind {index : Nat → K → Prop} {kept : H → Prop} {head older : H}
    (canonical : Canonical links records index kept head)
    (ancestor : Ancestor links records older head)
    : Canonical links records index kept older := by
  refine ⟨ancestor.member_older, ?_⟩
  intro n reached
  obtain ⟨found, above, height, entry, stored⟩ :=
    canonical.indexed n (Nat.le_trans reached ancestor.height_le)
  exact ⟨found, ancestor.linear collisionFree above (by omega), height, entry, stored⟩

end CollisionFree

/-- The highest of the records that two records both descend from. -/
structure HighestCommon (links : Links H K) (records : Set H) (common left right : H) : Prop where
  ofLeft : Ancestor links records common left
  ofRight : Ancestor links records common right
  highest
    : ∀ record, Ancestor links records record left → Ancestor links records record right →
        links.height record ≤ links.height common

/-- A record that is not the common ancestor itself is not an ancestor of the other one. -/
theorem HighestCommon.not_ancestor {common left right : H}
    (common_ : HighestCommon links records common left right)
    (higher : links.height common < links.height left)
    : ¬ Ancestor links records left right :=
  fun below => Nat.not_le_of_lt higher
    (common_.highest left (.self common_.ofLeft.member_newer) below)

/-- Descending to the parent keeps the highest common ancestor below. -/
theorem HighestCommon.parent (collisionFree : Set.InjOn links.hash records)
    {common left right parent : H} (common_ : HighestCommon links records common left right)
    (other : common ≠ left) (member : parent ∈ records)
    (linked : links.parentHash left = links.hash parent)
    (height : links.height left = links.height parent + 1)
    : HighestCommon links records common parent right := by
  have below := common_.ofLeft
  refine ⟨?_, common_.ofRight, ?_⟩
  · cases below with
    | self => exact absurd rfl other
    | @step parent' _ above _ linked' _ =>
        have same : parent' = parent :=
          collisionFree above.member_newer member (linked'.symm.trans linked)
        exact same ▸ above
  · intro record above above'
    exact common_.highest record
      (.step above common_.ofLeft.member_newer linked height) above'

/-- Where two records descend from different children of a record, it is their highest common
ancestor.
-/
theorem HighestCommon.of_fork (collisionFree : Set.InjOn links.hash records)
    {common left right leftChild rightChild : H}
    (toLeft : Ancestor links records leftChild left)
    (toRight : Ancestor links records rightChild right)
    (leftFrom : Ancestor links records common leftChild)
    (rightFrom : Ancestor links records common rightChild)
    (leftHeight : links.height leftChild = links.height common + 1)
    (rightHeight : links.height rightChild = links.height common + 1)
    (apart : leftChild ≠ rightChild)
    : HighestCommon links records common left right := by
  refine ⟨leftFrom.trans toLeft, rightFrom.trans toRight, ?_⟩
  intro record above above'
  by_contra higher
  -- a higher common ancestor would descend from both children
  have ofLeft := above.linear collisionFree toLeft (by omega)
  have ofRight := above'.linear collisionFree toRight (by omega)
  exact apart (ofLeft.unique collisionFree ofRight (leftHeight.trans rightHeight.symm))

/-- Whatever keeps the entries up to the head and the records they lead to keeps the index. -/
theorem Canonical.mono {index index' : Nat → K → Prop} {kept kept' : H → Prop} {head : H}
    (canonical : Canonical links records index kept head)
    (indexFrame : ∀ n k, n ≤ links.height head → index n k → index' n k)
    (keptFrame : ∀ record ∈ records, kept record → kept' record)
    : Canonical links records index' kept' head := by
  refine ⟨canonical.member, ?_⟩
  intro n reached
  obtain ⟨found, above, height, entry, stored⟩ := canonical.indexed n reached
  exact ⟨found, above, height, indexFrame n _ reached entry,
    keptFrame found above.member_older stored⟩

/-- A record of height zero is indexed by its own entry alone. -/
theorem Canonical.root {index : Nat → K → Prop} {kept : H → Prop} {root : H}
    (member : root ∈ records) (height : links.height root = 0)
    (entry : index 0 (links.hash root)) (stored : kept root)
    : Canonical links records index kept root := by
  refine ⟨member, ?_⟩
  intro n reached
  have zero : n = 0 := by omega
  subst zero
  exact ⟨root, .self member, height, entry, stored⟩

/-- Writing the entry of a child on top of the head keeps the index. -/
theorem Canonical.extend {index index' : Nat → K → Prop} {kept kept' : H → Prop}
    {head child : H} (canonical : Canonical links records index kept head)
    (member : child ∈ records) (linked : links.parentHash child = links.hash head)
    (height : links.height child = links.height head + 1)
    (entry : index' (links.height child) (links.hash child)) (stored : kept' child)
    (indexFrame : ∀ n k, n < links.height child → index n k → index' n k)
    (keptFrame : ∀ record ∈ records, kept record → kept' record)
    : Canonical links records index' kept' child := by
  refine ⟨member, ?_⟩
  intro n reached
  by_cases top : n = links.height child
  · subst top
    exact ⟨child, .self member, rfl, entry, stored⟩
  · obtain ⟨found, above, at_n, old, oldStored⟩ := canonical.indexed n (by omega)
    exact ⟨found, .step above member linked height, at_n, indexFrame n _ (by omega) old,
      keptFrame found above.member_older oldStored⟩

section Paths

/-- A record and one that names it as its parent. -/
def Linked (links : Links H K) (parent record : H) : Prop :=
  links.parentHash record = links.hash parent
  ∧ links.height record = links.height parent + 1

theorem isChain_concat {R : H → H → Prop} {root last : H} {path : List H}
    : List.IsChain R (root :: (path ++ [last]))
      ↔ List.IsChain R (root :: path) ∧ R (path.getLastD root) last := by
  induction path generalizing root with
  | nil => simp
  | cons first rest ih =>
      rw [List.cons_append, List.isChain_cons_cons, ih, List.isChain_cons_cons,
        List.getLastD_cons, and_assoc]

/-- A path climbs one height with each record, by induction on the path. -/
theorem height_getLastD {root : H} {path : List H}
    (linked : List.IsChain (Linked links) (root :: path))
    : links.height (path.getLastD root) = links.height root + path.length := by
  induction path generalizing root with
  | nil => rfl
  | cons first rest ih =>
      obtain ⟨⟨_, height⟩, later⟩ := List.isChain_cons_cons.mp linked
      rw [List.getLastD_cons, ih later, height, List.length_cons]
      omega

/-- The root of a path is an ancestor of its end. -/
theorem ancestor_getLastD {root : H} {path : List H}
    (inRecords : ∀ record ∈ root :: path, record ∈ records)
    (linked : List.IsChain (Linked links) (root :: path))
    : Ancestor links records root (path.getLastD root) := by
  induction path generalizing root with
  | nil => exact .self (inRecords root List.mem_cons_self)
  | cons first rest ih =>
      obtain ⟨⟨parent, height⟩, later⟩ := List.isChain_cons_cons.mp linked
      have later' : ∀ record ∈ first :: rest, record ∈ records :=
        fun record member => inRecords record (List.mem_cons_of_mem root member)
      have child : Ancestor links records root first :=
        .step (.self (inRecords root List.mem_cons_self)) (later' first List.mem_cons_self) parent
          height
      rw [List.getLastD_cons]
      exact child.trans (ih later' later)

/-- Every record of a path is the ancestor of its end that stands as many heights above the root
as it comes after it.
-/
theorem ancestor_getElem? {root record : H} {path : List H}
    (inRecords : ∀ record ∈ root :: path, record ∈ records)
    (linked : List.IsChain (Linked links) (root :: path)) {i : Nat}
    (found : path[i]? = some record)
    : Ancestor links records record (path.getLastD root)
      ∧ links.height record = links.height root + (i + 1) := by
  induction path generalizing root i with
  | nil => simp at found
  | cons first rest ih =>
      obtain ⟨⟨_, height⟩, later⟩ := List.isChain_cons_cons.mp linked
      have later' : ∀ record ∈ first :: rest, record ∈ records :=
        fun record member => inRecords record (List.mem_cons_of_mem root member)
      rw [List.getLastD_cons]
      cases i with
      | zero =>
          obtain rfl : first = record := by simpa using found
          exact ⟨ancestor_getLastD later' later, height⟩
      | succ i =>
          obtain ⟨above, higher⟩ := ih later' later (by simpa using found)
          exact ⟨above, by omega⟩

/-- Paths from one root to records of one hash are equal: their lengths agree by the heights
of their ends, and the induction goes from the end back to the root.
-/
theorem path_unique {root : H} {left right : List H}
    (collisionFree : Set.InjOn links.hash records)
    (inLeft : ∀ record ∈ root :: left, record ∈ records)
    (inRight : ∀ record ∈ root :: right, record ∈ records)
    (leftLinked : List.IsChain (Linked links) (root :: left))
    (rightLinked : List.IsChain (Linked links) (root :: right))
    (sameEnd : links.hash (left.getLastD root) = links.hash (right.getLastD root))
    : left = right := by
  have sameTip : left.getLastD root = right.getLastD root :=
    collisionFree (inLeft _ List.getLastD_mem_cons) (inRight _ List.getLastD_mem_cons) sameEnd
  have lengths : left.length = right.length := by
    have climbed := height_getLastD leftLinked
    rw [sameTip, height_getLastD rightLinked] at climbed
    omega
  induction left using List.reverseRecOn generalizing right with
  | nil => exact (List.length_eq_zero_iff.mp lengths.symm).symm
  | append_singleton left last ih =>
      rcases List.eq_nil_or_concat right with rfl | ⟨right, other, rfl⟩
      · simp at lengths
      · rw [List.concat_eq_append] at *
        rw [List.getLastD_concat, List.getLastD_concat] at sameTip
        subst sameTip
        obtain ⟨leftLinked, fromLeft, _⟩ := isChain_concat.mp leftLinked
        obtain ⟨rightLinked, fromRight, _⟩ := isChain_concat.mp rightLinked
        have inLeft' : ∀ record ∈ root :: left, record ∈ records :=
          fun record member => inLeft record (by grind)
        have inRight' : ∀ record ∈ root :: right, record ∈ records :=
          fun record member => inRight record (by grind)
        have parents := fromLeft.symm.trans fromRight
        rw [ih inLeft' inRight' leftLinked rightLinked parents
          (collisionFree (inLeft' _ List.getLastD_mem_cons) (inRight' _ List.getLastD_mem_cons)
            parents) (by simpa using lengths)]

end Paths

end HashChain
