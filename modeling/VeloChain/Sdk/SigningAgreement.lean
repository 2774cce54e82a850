import VeloChain.Sdk.Wallet

/-! What the client signs and what the node hashes.
The node writes the type of a transaction as a name, the client as a number, so no encoding of
the client is one of the node.
-/

namespace VeloChain

open Json (ascii quoted)

variable {N : Type} {numberText : N → Bytes}

/-- The node decodes the request of a transaction, and its own encoding of the transaction is the
byte string that the client has signed.
-/
def Wallet.AgreesWithNode (numberText : N → Bytes) (keccak256 : Bytes → Bytes)
    (codec : RequestCodec) (alloy : AlloyJson) (wallet : Wallet) (tx : SdkTransaction N)
    : Prop :=
  ∃ signed,
    codec.decode (wallet.signTransaction numberText keccak256 tx) = .ok signed
    ∧ signed.transaction.toVec alloy = tx.signingBytes numberText

/-- Equal texts agree on what their known beginnings have in common. -/
theorem take_eq_of_append {left right after after' : Bytes} (count : Nat)
    (same : left ++ after = right ++ after') (onLeft : count ≤ left.length)
    (onRight : count ≤ right.length)
    : left.take count = right.take count := by
  have taken := congrArg (List.take count) same
  rwa [List.take_append_of_le_length onLeft, List.take_append_of_le_length onRight] at taken

/-- No object of the client begins with the members that every encoding of the node begins with. -/
theorem SdkTransaction.signingBytes_ne_toVec (tx : SdkTransaction N) (alloy : AlloyJson)
    (decoded : Transaction)
    : decoded.toVec alloy ≠ tx.signingBytes numberText := by
  intro same
  obtain ⟨after, text⟩ := decoded.toVec_prefix alloy
  rw [text] at same
  unfold signingBytes toJson stringifyObject at same
  rcases members
      : tx.order.filterMap (fun key =>
          (tx.property numberText key).map (fun value => (ascii key.name, value)))
    with _ | ⟨⟨name, value⟩, rest⟩
  · rw [members] at same
    exact absurd (congrArg (List.take 2) same) (by simp [Json.render, Json.renderMembers, ascii])
  · have first : (name, value) ∈ tx.order.filterMap (fun key =>
        (tx.property numberText key).map (fun value => (ascii key.name, value))) := by
      rw [members]
      exact List.mem_cons_self
    obtain ⟨key, _, isProperty⟩ := List.mem_filterMap.mp first
    obtain ⟨value', isValue, named⟩ := Option.map_eq_some_iff.mp isProperty
    obtain ⟨rfl, rfl⟩ := Prod.mk.inj named
    obtain ⟨rest', text'⟩ := Json.render_object_cons (ascii key.name) value' rest
    rw [members, text'] at same
    cases key with
    | txType =>
        -- a digit against the quote of a name
        obtain rfl := Option.some.inj isValue
        cases kind : tx.txType <;> rw [kind] at same <;>
          exact absurd (take_eq_of_append 12 same (by decide) (by decide)) (by decide)
    | chainId | nonce | gasPrice | maxFeePerGas | maxPriorityFeePerGas | gasLimit | «to» | value
    | input | gameAction =>
        rw [List.append_assoc] at same
        exact absurd (take_eq_of_append 5 same (by decide) (by decide)) (by decide)

/-- Client and node never agree on what is signed. -/
theorem Wallet.not_agreesWithNode (keccak256 : Bytes → Bytes) (codec : RequestCodec)
    (alloy : AlloyJson) (wallet : Wallet) (tx : SdkTransaction N)
    : ¬ wallet.AgreesWithNode numberText keccak256 codec alloy tx := by
  rintro ⟨signed, _, same⟩
  exact tx.signingBytes_ne_toVec alloy signed.transaction same

/-- The action with which a player respawns. -/
def respawnAction : SdkActionObject Nat :=
  { action := .respawn
    order := [.type, .x, .y, .z, .targetEntityId, .blockType, .recipeId, .message]
    nodup := by decide
    complete := by intro key; cases key <;> decide }

/-- A player respawns: the wallet signs the number of the transaction type and an action with a
tag, whatever the node makes of the request.
-/
theorem agreesWithNode_fails_on_respawn
    : let tx := Wallet.gameActionTransaction 27181 0 respawnAction
      tx.signingBytes Json.decimal
          = ascii ("\x7b\"tx_type\":100,\"chain_id\":27181,\"nonce\":0,"
              ++ "\"gas_price\":\"1000000000\",\"gas_limit\":100000,\"value\":\"0\","
              ++ "\"input\":\"\",\"game_action\":\x7b\"type\":\"respawn\"\x7d\x7d")
        ∧ ¬ ∃ codec alloy,
              (Wallet.mk (List.replicate 32 1)).AgreesWithNode Json.decimal (fun _ => []) codec
                alloy tx := by
  refine ⟨by decide +kernel, ?_⟩
  rintro ⟨codec, alloy, signed, _, same⟩
  exact SdkTransaction.signingBytes_ne_toVec _ alloy signed.transaction same

end VeloChain
