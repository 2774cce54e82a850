import Mathlib.Data.List.Chain
import VeloChain.Consensus.Poa
import VeloChain.Lib.HashChain
import VeloChain.Primitives.HeaderEncoding

/-! Headers accepted one after another.
Numbers and ticks count up along them, and since the encoding of a header determines it, the
hash of the last one determines the whole list.
-/

namespace VeloChain

open PoaConsensus

/-- How headers are linked: by the hash of the parent, one block number higher. -/
def headerLinks (crypto : Crypto) : HashChain.Links BlockHeader B256 :=
  { hash := BlockHeader.hash crypto
    parentHash := BlockHeader.parentHash
    height := fun header => header.number.toNat }

/-- The headers pass the header check one after another on top of `genesis`, and no number or
tick among them is about to wrap.
-/
structure AcceptedHeaders (crypto : Crypto) (genesis : BlockHeader) (headers : List BlockHeader)
    : Prop where
  accepted
    : List.IsChain (fun parent header => verifyHeader crypto header parent = .ok ())
        (genesis :: headers)
  small
    : ∀ header ∈ genesis :: headers,
        header.number.toNat < 2 ^ 64 - 1 ∧ header.gameTick.toNat < 2 ^ 64 - 1

/-- A header counts on from its parent: number and tick go up by one, time goes up. -/
structure CountsOn (parent header : BlockHeader) : Prop where
  number : header.number.toNat = parent.number.toNat + 1
  gameTick : header.gameTick.toNat = parent.gameTick.toNat + 1
  timestamp : parent.timestamp.toNat < header.timestamp.toNat

theorem toNat_succ_of_small {n : UInt64} (small : n.toNat < 2 ^ 64 - 1)
    : (n + 1).toNat = n.toNat + 1 := by
  rw [UInt64.toNat_add, UInt64.toNat_one]
  omega

namespace AcceptedHeaders

variable {crypto : Crypto} {genesis : BlockHeader} {headers : List BlockHeader}

theorem follows (accepted : AcceptedHeaders crypto genesis headers)
    : List.IsChain
        (fun parent header => FollowsParent crypto header parent ∧ CountsOn parent header)
        (genesis :: headers) := by
  apply accepted.accepted.imp_of_mem_imp
  intro parent header inChain _ checked
  have rules := verifyHeader_ok_iff.mp checked
  obtain ⟨number, gameTick⟩ := accepted.small parent inChain
  refine ⟨rules, ⟨?_, ?_, UInt64.lt_iff_toNat_lt.mp rules.timestamp⟩⟩
  · rw [rules.number, toNat_succ_of_small number]
  · rw [rules.gameTick, toNat_succ_of_small gameTick]

theorem countsOn (accepted : AcceptedHeaders crypto genesis headers)
    : List.IsChain CountsOn (genesis :: headers) :=
  accepted.follows.imp (fun _ _ both => both.2)

theorem linked (accepted : AcceptedHeaders crypto genesis headers)
    : List.IsChain (HashChain.Linked (headerLinks crypto)) (genesis :: headers) :=
  accepted.follows.imp (fun _ _ both => ⟨both.1.parentHash, both.2.number⟩)

end AcceptedHeaders

/-- Where the hash has no collisions among the encodings of the headers, accepted headers
count on, and the hash of the last one determines them all.
-/
theorem acceptedHeaders_law {crypto : Crypto} {genesis : BlockHeader}
    {left right : List BlockHeader} (acceptedLeft : AcceptedHeaders crypto genesis left)
    (acceptedRight : AcceptedHeaders crypto genesis right)
    (collisionFree
      : Set.InjOn crypto.keccak256
          { bytes | ∃ header ∈ genesis :: left ++ right, bytes = header.encode })
    : List.IsChain CountsOn (genesis :: left)
      ∧ ((left.getLastD genesis).hash crypto = (right.getLastD genesis).hash crypto →
          left.length = right.length ∧ left = right) := by
  refine ⟨acceptedLeft.countsOn, ?_⟩
  intro sameEnd
  have hashes
      : Set.InjOn (headerLinks crypto).hash { header | header ∈ genesis :: left ++ right } := by
    intro header inChain other inOther same
    exact BlockHeader.encode_injective
      (collisionFree ⟨header, inChain, rfl⟩ ⟨other, inOther, rfl⟩ same)
  have same := HashChain.path_unique hashes (by grind) (by grind) acceptedLeft.linked
    acceptedRight.linked sameEnd
  exact ⟨congrArg List.length same, same⟩

/-- A header prepared on top of genesis. -/
def firstHeader : BlockHeader :=
  { nextHeader .disclosing 5 (.genesis 0) 7 1 1 with nonce := 1 }

/-- A header prepared on top of the first one. -/
def secondHeader : BlockHeader :=
  { nextHeader .disclosing 5 firstHeader 7 1 2 with nonce := 2 }

theorem acceptedHeaders_law_prepared
    : List.IsChain CountsOn (.genesis 0 :: [firstHeader, secondHeader])
      ∧ (([firstHeader, secondHeader].getLastD (.genesis 0)).hash .disclosing
            = ([firstHeader].getLastD (.genesis 0)).hash .disclosing →
          [firstHeader, secondHeader].length = [firstHeader].length
          ∧ [firstHeader, secondHeader] = [firstHeader]) := by
  have checks
      : verifyHeader .disclosing firstHeader (.genesis 0) = .ok ()
        ∧ verifyHeader .disclosing secondHeader firstHeader = .ok () := by
    decide +kernel
  have longer : AcceptedHeaders .disclosing (.genesis 0) [firstHeader, secondHeader] :=
    ⟨.cons_cons checks.1 (.cons_cons checks.2 (.singleton _)), by decide +kernel⟩
  have shorter : AcceptedHeaders .disclosing (.genesis 0) [firstHeader] :=
    ⟨.cons_cons checks.1 (.singleton _), by decide +kernel⟩
  apply acceptedHeaders_law longer shorter
  have distinct
      : ∀ header ∈ BlockHeader.genesis 0 :: [firstHeader, secondHeader] ++ [firstHeader],
          ∀ other ∈ BlockHeader.genesis 0 :: [firstHeader, secondHeader] ++ [firstHeader],
            header.hash .disclosing = other.hash .disclosing → header = other := by
    decide +kernel
  rintro bytes ⟨header, member, rfl⟩ bytes' ⟨other, otherMember, rfl⟩ same
  rw [distinct header member other otherMember same]

end VeloChain
