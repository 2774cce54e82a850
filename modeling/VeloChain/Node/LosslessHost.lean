import Mathlib.Logic.Equiv.List
import Mathlib.Tactic.DeriveEncodable
import VeloChain.GameEngine.Resting
import VeloChain.Node.Reference

/-! A host for evaluation whose formats read everything back.
A value is stored as the digits of its number in an enumeration of its type.
-/

namespace VeloChain

section Enumerations

instance encodableBitVec {w : Nat} : Encodable (BitVec w) :=
  .ofLeftInverse BitVec.toFin BitVec.ofFin (fun _ => rfl)

instance encodableUInt8 : Encodable UInt8 :=
  .ofLeftInverse UInt8.toBitVec UInt8.ofBitVec (fun _ => rfl)

instance encodableUInt32 : Encodable UInt32 :=
  .ofLeftInverse UInt32.toBitVec UInt32.ofBitVec (fun _ => rfl)

instance encodableUInt64 : Encodable UInt64 :=
  .ofLeftInverse UInt64.toBitVec UInt64.ofBitVec (fun _ => rfl)

instance encodableChar : Encodable Char := .ofLeftInverse Char.toNat Char.ofNat Char.ofNat_toNat

instance encodableString : Encodable String :=
  .ofLeftInverse String.toList String.ofList (fun _ => String.ofList_toList)

instance encodableUInt16 : Encodable UInt16 :=
  .ofLeftInverse UInt16.toBitVec UInt16.ofBitVec (fun _ => rfl)

instance encodableInt32 : Encodable Int32 :=
  .ofLeftInverse Int32.toBitVec Int32.ofBitVec (fun _ => rfl)

instance encodableInt64 : Encodable Int64 :=
  .ofLeftInverse Int64.toBitVec Int64.ofBitVec (fun _ => rfl)

deriving instance Encodable for TxType, GameAction, Transaction, Signature, SignedTransaction,
  BlockBody, BlockHeader, ReceiptLog, TransactionReceipt, Milli,
  PositionComponent, HealthComponent, PlayerComponent, NpcBehavior, NpcComponent, Item,
  InventoryComponent, PhysicsComponent, CombatComponent, NpcAiState, AiStateComponent,
  EquipmentComponent, Component

end Enumerations

/-- The format that stores the number of a value. -/
def Codec.enumerated {α : Type} [Encodable α] : Codec α :=
  { encode := fun value => Bytes.minimalBigEndian (Encodable.encode value)
    decode := fun bytes =>
      match Encodable.decode (Bytes.toNat bytes) with
      | some value => .ok value
      | none => .error "no value has this number" }

theorem Codec.enumerated_roundTrips {α : Type} [Encodable α]
    : (Codec.enumerated : Codec α).RoundTrips := by
  intro value
  simp only [RoundTripsAt, enumerated, Bytes.toNat_minimalBigEndian, Encodable.encodek]

theorem Codec.RoundTrips.injective {α : Type} {codec : Codec α} (sound : codec.RoundTrips)
    : Function.Injective codec.encode := by
  intro left right same
  have read := sound left
  rw [RoundTripsAt, same, show codec.decode _ = _ from sound right] at read
  exact (Except.ok.inj read).symm

/-- The format that stores the number of the entities as they are walked. -/
def EcsCodec.enumerated {F : Type} [Encodable (Component F)] : EcsCodec F :=
  let codec : Codec (EntityId × List (EntityId × List (Component F))) := .enumerated
  { encode := fun nextId entities => codec.encode (nextId, entities)
    decode := fun bytes =>
      (codec.decode bytes).map (fun (nextEntityId, entities) =>
        { nextEntityId, entities := .ofEntries entities }) }

theorem EcsCodec.enumerated_roundTrips {F : Type} [F32 F] [Encodable (Component F)]
    : (EcsCodec.enumerated : EcsCodec F).RoundTrips := by
  intro world order
  have read := @Codec.enumerated_roundTrips (EntityId × List (EntityId × List (Component F))) _
    (world.nextEntityId,
      (order.keys world.entities).map (fun id => (id, (world.getComponents id).getD [])))
  have rebuilt := FinMap.ofEntries_walk order world.entities []
  simp only [Codec.RoundTripsAt] at read
  simp only [EcsWorld.serialize, enumerated, read, Except.map]
  exact congrArg Except.ok (EcsWorld.ext rfl rebuilt)

/-- The format that stores one world, as it is walked, in no byte, and every other one as another
format does.
-/
def EcsCodec.shortened {F : Type} [DecidableEq (Component F)]
    (walked : EntityId × List (EntityId × List (Component F))) (codec : EcsCodec F)
    : EcsCodec F :=
  { encode := fun nextId entities =>
      if (nextId, entities) = walked then [] else 0 :: codec.encode nextId entities
    decode := fun bytes =>
      match bytes with
      | [] => .ok { nextEntityId := walked.1, entities := .ofEntries walked.2 }
      | _ :: rest => codec.decode rest }

theorem EcsCodec.shortened_roundTrips {F : Type} [F32 F] [DecidableEq (Component F)]
    {codec : EcsCodec F} (sound : codec.RoundTrips)
    (walked : EntityId × List (EntityId × List (Component F)))
    : (codec.shortened walked).RoundTrips := by
  intro world order
  have read := sound world order
  have rebuilt := FinMap.ofEntries_walk order world.entities []
  unfold EcsWorld.serialize at read ⊢
  generalize entries
    : (order.keys world.entities).map (fun id => (id, (world.getComponents id).getD []))
      = entities at read ⊢
  by_cases same : (world.nextEntityId, entities) = walked
  · simp only [shortened, if_pos same]
    rw [← same, ← entries]
    exact congrArg Except.ok (EcsWorld.ext rfl rebuilt)
  · simp only [shortened, if_neg same]
    exact read

namespace Host

/-- A reference host whose formats read everything back. -/
def lossless : Host Milli :=
  { Host.reference [] with
    blocks := { (Host.reference []).blocks with header := .enumerated }
    ecs := .enumerated
    receiptJson := Codec.enumerated.encode }

theorem lossless_headers : lossless.blocks.header.RoundTrips :=
  @Codec.enumerated_roundTrips BlockHeader _

theorem lossless_accounts : lossless.account.RoundTrips := Account.wordCodec_roundTrips

theorem lossless_entities : lossless.ecs.RoundTrips :=
  @EcsCodec.enumerated_roundTrips Milli _ _

theorem lossless_index : lossless.blocks.txIndex.RoundTrips := by
  intro entry
  have small : entry.index.toNat < 256 ^ 4 := by simpa using entry.index.toNat_lt
  simp only [Codec.RoundTripsAt, lossless, reference]
  rw [List.take_left' (length_hashSlice _), List.drop_left' (length_hashSlice _),
    hashFromSlice_hashSlice, Bytes.toNat_bigEndian, Nat.mod_eq_of_lt small, UInt32.ofNat_toNat]

theorem lossless_receipts : Function.Injective lossless.receiptJson := by
  intro left right same
  simp only [lossless] at same
  exact Codec.enumerated_roundTrips.injective same

end Host

end VeloChain
