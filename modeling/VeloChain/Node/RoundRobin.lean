import Mathlib.Data.List.Rotate
import VeloChain.Node.Growth
import VeloChain.Node.Reference

/-! The proposer schedule and the blocks of a grown chain.
Block application does not look at the schedule: it wants a seal of some validator, or none.
Where the blocks of a window are produced in turn, the window goes round the validators.
-/

namespace VeloChain

/-- Every header of the window is by the proposer of its height, and no number wraps. -/
structure InTurn (consensus : PoaConsensus) (window : List BlockHeader) : Prop where
  scheduled
    : ∀ header ∈ window,
        consensus.proposerForHeight header.number = some header.beneficiary
  small : ∀ header ∈ window, header.number.toNat < 2 ^ 64 - 1

/-- As many consecutive heights as there are places lead once around them. -/
theorem map_mod_range' {α : Type*} (places : List α) (first : Nat)
    : (List.range' first places.length).map (fun height => places[height % places.length]?)
      = (places.rotate first).map some := by
  apply List.ext_getElem
  · simp
  · intro i inRange inRotation
    have below : i < places.length := by simpa using inRange
    have positive : 0 < places.length := by omega
    simp only [List.getElem_map, List.getElem_range', List.getElem_rotate, Nat.one_mul]
    rw [List.getElem?_eq_getElem (Nat.mod_lt _ positive)]
    simp only [Nat.add_comm]

/-- The numbers of headers that count on from each other are consecutive. -/
theorem numbers_of_follows {crypto : Crypto} {first : BlockHeader} {rest : List BlockHeader}
    (chained
      : List.IsChain (fun parent header => PoaConsensus.FollowsParent crypto header parent)
          (first :: rest))
    (small : ∀ header ∈ first :: rest, header.number.toNat < 2 ^ 64 - 1)
    : (first :: rest).map (fun header => header.number.toNat)
      = List.range' first.number.toNat (rest.length + 1) := by
  induction rest generalizing first with
  | nil => rfl
  | cons second later ih =>
      obtain ⟨follows, chained⟩ := List.isChain_cons_cons.mp chained
      obtain ⟨smallFirst, small⟩ := List.forall_mem_cons.mp small
      have next : second.number.toNat = first.number.toNat + 1 := by
        rw [follows.number, UInt64.toNat_add, UInt64.toNat_one]
        omega
      rw [List.map_cons, ih chained small, next]
      rfl

/-- The beneficiaries of a window in turn are the validators, rotated. -/
theorem InTurn.perm {crypto : Crypto} {consensus : PoaConsensus} {window : List BlockHeader}
    (inTurn : InTurn consensus window)
    (chained
      : List.IsChain (fun parent header => PoaConsensus.FollowsParent crypto header parent)
          window)
    (full : window.length = consensus.validators.length)
    : (window.map BlockHeader.beneficiary).Perm consensus.validators := by
  cases window with
  | nil => rw [List.eq_nil_of_length_eq_zero full.symm, List.map_nil]
  | cons first rest =>
      have nonempty : consensus.validators.isEmpty = false := by
        rw [List.isEmpty_eq_false_iff, ne_eq, ← List.length_eq_zero_iff, ← full]
        simp
      have scheduled
          : (first :: rest).map (fun header => some header.beneficiary)
            = ((first :: rest).map (fun header => header.number.toNat)).map (fun height =>
                consensus.validators[height % consensus.validators.length]?) := by
        rw [List.map_map]
        refine List.map_congr_left (fun header member => ?_)
        rw [← inTurn.scheduled header member, PoaConsensus.proposerForHeight, nonempty]
        rfl
      rw [numbers_of_follows chained inTurn.small, ← List.length_cons, full, map_mod_range',
        ← Function.comp_def, ← List.map_map] at scheduled
      rw [List.map_injective_iff.mpr (Option.some_injective _) scheduled]
      exact List.rotate_perm _ _

namespace Chain

open PoaConsensus

variable {F : Type} [F32 F] {host : Host F}

/-- On a chain grown by block application each block is unsealed or sealed by a validator that
is its beneficiary; and in a window in turn, as long as the validator set, each validator is
the beneficiary as often as it is listed.
-/
theorem roundRobin_run {blocks : List (Block × BlockOrder F)} {chain final : Chain F}
    {genesis : BlockHeader}
    (applied
      : Loop.run (importBlock host) blocks (chain.initGenesis host genesis) = (.ok (), final))
    : (∀ entry ∈ blocks, entry.1.header.number ≠ 0 →
        entry.1.header.extraData = []
        ∨ SealedByValidator host.crypto chain.consensus entry.1)
      ∧ ∀ before window after, headers blocks = before ++ window ++ after →
          InTurn chain.consensus window → window.length = chain.consensus.validators.length →
          (window.map BlockHeader.beneficiary).Perm chain.consensus.validators := by
  obtain ⟨verified, chained, _⟩ := run_importBlock_grows rfl applied
  constructor
  · intro entry member above
    obtain ⟨parent, accepted⟩ := verified entry member
    unfold verifyBlock at accepted
    rw [verifyHeader_ok_iff.mpr (verifyBlock_header accepted)] at accepted
    simp only [above, if_false] at accepted
    exact verifySeal_ok_iff.mp accepted
  · intro before window after isWindow inTurn full
    rw [isWindow, ← List.cons_append, ← List.cons_append] at chained
    exact inTurn.perm chained.left_of_append.right_of_append full

/-- A chain with the validators 7 and 8 that has not been initialized. -/
def twoValidators : Chain Milli :=
  .new .empty .new .reference .new (.newReadonly [7, 8] { period := 1 }) 1

/-- The validator 7 produces at height 1, where it is the turn of 8. -/
theorem roundRobin_fails_out_of_turn
    : ¬ ∀ (host : Host Milli) (blocks : List (Block × BlockOrder Milli))
          (chain final : Chain Milli) (genesis : BlockHeader),
        chain.consensus.validators ≠ []
        → Loop.run (importBlock host) blocks (chain.initGenesis host genesis) = (.ok (), final)
        → ∀ entry ∈ blocks, 0 < entry.1.header.number →
            chain.consensus.proposerForHeight entry.1.header.number
              = some entry.1.header.beneficiary := by
  intro claimed
  have scheduled := claimed (.reference []) [(sealedBlock, .ascending Milli)] twoValidators _
    (.genesis 0) (by decide) (Loop.eq_of_ok (by decide +kernel)) _ List.mem_cons_self
    (by decide)
  exact absurd scheduled (by decide)

/-- A block with the seal of the validator of a secret key, which is its address as well. -/
def sealedOn (parent : BlockHeader) (secret : B256) : Block :=
  let block := Block.following parent []
  { block with
    header :=
      { block.header with
        beneficiary := BitVec.setWidth 160 secret
        extraData := hashSlice secret ++ hashSlice 0 ++ [0] } }

/-- Three blocks, each by the validator whose turn it is. -/
def inTurnBlocks : List (Block × BlockOrder Milli) :=
  let first := sealedOn (.genesis 0) 8
  let second := sealedOn first.header 7
  let third := sealedOn second.header 8
  [(first, .ascending Milli), (second, .ascending Milli), (third, .ascending Milli)]

/-- Of three blocks in turn, the last two are a window in which both validators produce. -/
theorem roundRobin_run_inTurn
    : (∀ entry ∈ inTurnBlocks, entry.1.header.number ≠ 0 →
        entry.1.header.extraData = []
        ∨ SealedByValidator .disclosing twoValidators.consensus entry.1)
      ∧ InTurn twoValidators.consensus (headers (inTurnBlocks.drop 1))
      ∧ ((headers (inTurnBlocks.drop 1)).map BlockHeader.beneficiary).Perm [7, 8] := by
  obtain ⟨sealed, windows⟩ := @roundRobin_run _ _ (.reference []) inTurnBlocks twoValidators _
    (.genesis 0) (Loop.eq_of_ok (by decide +kernel))
  have inTurn : InTurn twoValidators.consensus (headers (inTurnBlocks.drop 1)) :=
    ⟨by decide +kernel, by decide +kernel⟩
  exact ⟨sealed, inTurn,
    windows (headers (inTurnBlocks.take 1)) (headers (inTurnBlocks.drop 1)) [] rfl inTurn rfl⟩

end Chain

end VeloChain
