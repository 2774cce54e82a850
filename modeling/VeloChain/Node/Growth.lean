import VeloChain.Consensus.Seal
import VeloChain.Node.Chain

/-! Runs of applied blocks: a chain grows by one verified header at a time. -/

namespace VeloChain.Chain

open PoaConsensus

variable {F : Type} [F32 F]

/-- Apply one block of a run. -/
def importBlock (host : Host F) (entry : Block × BlockOrder F) (chain : Chain F)
    : Except NodeError Unit × Chain F :=
  chain.applyBlock host entry.2 entry.1

/-- The headers of the blocks of a run. -/
def headers (blocks : List (Block × BlockOrder F)) : List BlockHeader :=
  blocks.map (fun entry => entry.1.header)

variable {host : Host F}

/-- Applying a block leaves the consensus engine and the chain id as they are. -/
theorem applyBlock_config (order : BlockOrder F) (block : Block) (chain : Chain F)
    : (chain.applyBlock host order block).2.consensus = chain.consensus
      ∧ (chain.applyBlock host order block).2.chainId = chain.chainId := by
  rcases call : chain.applyBlock host order block with ⟨_ | _, after⟩
  · obtain ⟨_, _, _, rfl⟩ := applyBlock_error call
    exact ⟨rfl, rfl⟩
  · obtain ⟨accepted, rfl⟩ := applyBlock_ok_iff.mp call
    exact ⟨rfl, rfl⟩

/-- An applied block follows the head and becomes it. -/
theorem applyBlock_grows {order : BlockOrder F} {block : Block} {chain next : Chain F}
    {head : BlockHeader} (isHead : chain.head = some head)
    (applied : chain.applyBlock host order block = (.ok (), next))
    : chain.consensus.verifyBlock host.crypto block head = .ok ()
      ∧ next.head = some block.header := by
  obtain ⟨accepted, rfl⟩ := applyBlock_ok_iff.mp applied
  obtain rfl := Option.some.inj (accepted.head.symm.trans isHead)
  exact ⟨accepted.verified, rfl⟩

/-- A run of applied blocks: every block is verified by the one consensus engine, each header
follows the one before, and the last one becomes the head.
-/
theorem run_importBlock_grows {blocks : List (Block × BlockOrder F)} {chain final : Chain F}
    {head : BlockHeader} (isHead : chain.head = some head)
    (applied : Loop.run (importBlock host) blocks chain = (.ok (), final))
    : (∀ entry ∈ blocks, ∃ parent,
        chain.consensus.verifyBlock host.crypto entry.1 parent = .ok ())
      ∧ List.IsChain (fun parent header => FollowsParent host.crypto header parent)
          (head :: headers blocks)
      ∧ final.head = some ((headers blocks).getLastD head) := by
  induction blocks generalizing chain head with
  | nil =>
      obtain rfl := (Prod.mk.inj applied).2
      exact ⟨by simp, .singleton head, isHead⟩
  | cons entry rest ih =>
      obtain ⟨next, imported, applied⟩ := Loop.run_cons_ok_iff.mp applied
      obtain ⟨verified, newHead⟩ := applyBlock_grows isHead imported
      have config := (@applyBlock_config F _ host entry.2 entry.1 chain).1
      rw [show chain.applyBlock host entry.2 entry.1 = _ from imported] at config
      obtain ⟨later, chained, last⟩ := ih newHead applied
      rw [show next.consensus = chain.consensus from config] at later
      refine ⟨List.forall_mem_cons.mpr ⟨⟨head, verified⟩, later⟩, ?_, ?_⟩
      · exact .cons_cons (verifyBlock_header verified) chained
      · rw [last, headers, headers, List.map_cons, List.getLastD_cons]

/-- Timestamps grow with every block, so a run has fewer blocks than there are timestamps. -/
theorem timestamp_getLastD_le {crypto : Crypto} {head : BlockHeader} {later : List BlockHeader}
    (chained
      : List.IsChain (fun parent header => FollowsParent crypto header parent) (head :: later))
    : head.timestamp.toNat + later.length ≤ (later.getLastD head).timestamp.toNat := by
  induction later generalizing head with
  | nil => exact Nat.le_refl _
  | cons first rest ih =>
      obtain ⟨follows, chained⟩ := List.isChain_cons_cons.mp chained
      have grows := UInt64.lt_iff_toNat_lt.mp follows.timestamp
      have atEnd := ih chained
      rw [List.getLastD_cons, List.length_cons]
      omega

theorem length_lt_of_run {blocks : List (Block × BlockOrder F)} {chain final : Chain F}
    {head : BlockHeader} (isHead : chain.head = some head)
    (applied : Loop.run (importBlock host) blocks chain = (.ok (), final))
    : blocks.length < 2 ^ 64 := by
  have grown := timestamp_getLastD_le (run_importBlock_grows isHead applied).2.1
  have bound := ((headers blocks).getLastD head).timestamp.toNat_lt
  rw [headers, List.length_map] at grown
  exact Nat.lt_of_le_of_lt (Nat.le_trans (Nat.le_add_left _ _) grown) bound

end VeloChain.Chain
