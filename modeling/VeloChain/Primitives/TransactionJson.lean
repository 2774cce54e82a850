import VeloChain.Lib.Json
import VeloChain.Primitives.Types

/-! The JSON encoding of a transaction, whose hash is signed.
Members stand in the order of their declaration, and a missing option is `null`.
-/

namespace VeloChain

/-- How the library of the fixed-size types writes an address and a 256-bit integer. -/
structure AlloyJson where
  address : Address → Bytes
  u256 : U256 → Bytes

open Json (ascii decimal signedDecimal escapeString)

/-- The variant names of transaction types. -/
def TxType.toJson : TxType → Json
  | .legacy => .string (ascii "Legacy")
  | .accessList => .string (ascii "AccessList")
  | .dynamicFee => .string (ascii "DynamicFee")
  | .gameAction => .string (ascii "GameAction")

/-- An action under the name of its variant. -/
def GameAction.toJson : GameAction → Json
  | .move x y z =>
      variant "Move" [("x", signed x.toInt), ("y", signed y.toInt), ("z", signed z.toInt)]
  | .attack targetEntityId => variant "Attack" [("target_entity_id", unsigned targetEntityId)]
  | .interact targetEntityId =>
      variant "Interact" [("target_entity_id", unsigned targetEntityId)]
  | .placeBlock x y z blockType =>
      variant "PlaceBlock"
        [ ("x", signed x.toInt), ("y", signed y.toInt), ("z", signed z.toInt)
        , ("block_type", unsigned blockType.toNat) ]
  | .breakBlock x y z =>
      variant "BreakBlock"
        [("x", signed x.toInt), ("y", signed y.toInt), ("z", signed z.toInt)]
  | .craft recipeId => variant "Craft" [("recipe_id", unsigned recipeId.toNat)]
  | .chat message => variant "Chat" [("message", .string (escapeString message))]
  | .respawn => .string (ascii "Respawn")
where
  signed (n : Int) : Json := .number (signedDecimal n)
  unsigned (n : Nat) : Json := .number (decimal n)
  variant (name : String) (fields : List (String × Json)) : Json :=
    .object [(ascii name, .object (fields.map (fun field => (ascii field.1, field.2))))]

/-- An optional value. -/
def optionJson {α : Type} (toJson : α → Json) (value : Option α) : Json :=
  value.elim .null toJson

/-- The members of an unsigned transaction. -/
def Transaction.toJson (alloy : AlloyJson) (tx : Transaction) : Json :=
  .object
    [ (ascii "tx_type", tx.txType.toJson)
    , (ascii "chain_id", .number (decimal tx.chainId.toNat))
    , (ascii "nonce", .number (decimal tx.nonce))
    , (ascii "gas_price", optionJson (fun price => .number (decimal price.toNat)) tx.gasPrice)
    , (ascii "max_fee_per_gas",
        optionJson (fun fee => .number (decimal fee.toNat)) tx.maxFeePerGas)
    , (ascii "max_priority_fee_per_gas",
        optionJson (fun fee => .number (decimal fee.toNat)) tx.maxPriorityFeePerGas)
    , (ascii "gas_limit", .number (decimal tx.gasLimit.toNat))
    , (ascii "to", optionJson (fun recipient => .string (alloy.address recipient)) tx.to)
    , (ascii "value", .string (alloy.u256 tx.value))
    , (ascii "input", .array (tx.input.map (fun byte => .number (decimal byte.toNat))))
    , (ascii "game_action", optionJson GameAction.toJson tx.gameAction) ]

/-- The bytes that are hashed and signed. -/
def Transaction.toVec (alloy : AlloyJson) (tx : Transaction) : Bytes := (tx.toJson alloy).render

/-- The encoding begins with the name of the transaction type, in quotes. -/
theorem Transaction.toVec_prefix (alloy : AlloyJson) (tx : Transaction)
    : ∃ after, tx.toVec alloy = ascii "\x7b\"tx_type\":\"" ++ after := by
  obtain ⟨after, text⟩ := Json.render_object_cons (ascii "tx_type") tx.txType.toJson _
  have name : ∃ rest, tx.txType.toJson.render = ascii "\"" ++ rest := by
    cases tx.txType <;> exact ⟨_, List.append_assoc _ _ _⟩
  obtain ⟨rest, isName⟩ := name
  refine ⟨rest ++ after, ?_⟩
  rw [toVec, toJson, text, isName]
  rfl

end VeloChain
