import VeloChain.Rpc.EthApi
import VeloChain.Primitives.Keystore

/-! Game actions that are submitted over the game API, and the calls of the SDK that submit them.
A request carries a game action without a signature; the node signs it with a key of its own,
made for this one action.
-/

namespace VeloChain

-----------------------------------------------------------------------------------------
-- Signing
-----------------------------------------------------------------------------------------

/-- Sign a transaction with a keypair. -/
def Transaction.sign (crypto : Crypto) (keypair : Keypair) (tx : Transaction)
    : Except PrimitivesError SignedTransaction :=
  match keypair.signHash crypto (tx.signingHash crypto) with
  | .error e => .error e
  | .ok (r, s, recid) =>
      let signature := { v := recid.toUInt64, r, s }
      .ok
        { transaction := tx
          signature
          hash := SignedTransaction.computeHash crypto tx signature }

/-- Create a game action transaction. -/
def Transaction.newGameAction (chainId : UInt64) (nonce : Nat) (action : GameAction)
    : Transaction :=
  { txType := .gameAction
    chainId
    nonce
    gasPrice := some 1000000000
    maxFeePerGas := none
    maxPriorityFeePerGas := none
    gasLimit := 100000
    «to» := none
    value := 0
    input := []
    gameAction := some action }

/-- Signing succeeds, and the keypair is recovered as the sender. -/
theorem Crypto.SignsRecoverably.sign {crypto : Crypto} (sound : crypto.SignsRecoverably)
    {secret : B256} {keypair : Keypair}
    (made : Keypair.fromSecretKey crypto secret = .ok keypair) (tx : Transaction)
    : ∃ signed,
        tx.sign crypto keypair = .ok signed
        ∧ signed.transaction = tx
        ∧ signed.sender crypto = .ok keypair.address := by
  obtain ⟨r, s, recid, signs, recovers⟩ := sound.recoverSigner made (tx.signingHash crypto)
  let signature : Signature := { v := recid.toUInt64, r, s }
  exact ⟨⟨tx, signature, SignedTransaction.computeHash crypto tx signature⟩,
    by simp only [Transaction.sign, signs, signature], rfl, recovers⟩

-----------------------------------------------------------------------------------------
-- Requests
-----------------------------------------------------------------------------------------

/-- A member of the parameters, as serde_json reads it. -/
inductive ParamValue
  | null
  | bool (value : Bool)
  | posInt (n : UInt64)
  | negInt (n : Int64)
  /-- a number with a fraction or an exponent, or an integer that does not fit -/
  | float
  | string (text : String)
  /-- an array or an object, whose contents no action reads -/
  | nested
  deriving DecidableEq

namespace ParamValue

def asI64 : ParamValue → Option Int64
  | .posInt n => if n.toNat < 2 ^ 63 then some (Int64.ofInt n.toNat) else none
  | .negInt n => some n
  | _ => none

def asU64 : ParamValue → Option UInt64
  | .posInt n => some n
  | _ => none

def asStr : ParamValue → Option String
  | .string text => some text
  | _ => none

end ParamValue

/-- The members of the parameters; parameters that are no object have none. -/
abbrev Params := List (String × ParamValue)

/-- A coordinate of a move; what is missing or no integer counts as zero. -/
def Params.coordinate (params : Params) (key : String) : Int64 :=
  ((params.lookup key).bind ParamValue.asI64).getD 0

def parseGameAction (actionType : String) (params : Params) : Except ErrorObject GameAction :=
  match actionType with
  | "move" =>
      .ok (.move (params.coordinate "x") (params.coordinate "y") (params.coordinate "z"))
  | "attack" =>
      match (params.lookup "target_entity_id").bind ParamValue.asU64 with
      | none => .error (invalidParams "Missing target_entity_id")
      | some target => .ok (.attack target.toNat)
  | "chat" =>
      .ok (.chat (((params.lookup "message").bind ParamValue.asStr).getD ""))
  | "respawn" => .ok .respawn
  | actionType => .error (invalidParams s!"Unknown action type: {actionType}")

/-- The signed transaction of a submitted action; `keypair` is the one that `Keypair::random`
makes for it.
-/
def signAction (crypto : Crypto) (keypair : Keypair) (chainId : UInt64) (actionType : String)
    (params : Params) : Except ErrorObject SignedTransaction :=
  match parseGameAction actionType params with
  | .error e => .error e
  | .ok action =>
      match (Transaction.newGameAction chainId 0 action).sign crypto keypair with
      | .error e => .error (internalErr s!"Failed to sign action: {e}")
      | .ok signed => .ok signed

/-- Submit a game action. -/
def submitAction (crypto : Crypto) (keypair : Keypair) (chainId : UInt64) (actionType : String)
    (params : Params) (pool : TransactionPool) : Except ErrorObject String × TransactionPool :=
  match signAction crypto keypair chainId actionType params with
  | .error e => (.error e, pool)
  | .ok signed =>
      match pool.addTransaction crypto signed with
      | (.error e, pool) => (.error (internalErr s!"TxPool error: {e}"), pool)
      | (.ok _, pool) => (.ok (displayHash signed.hash), pool)

-----------------------------------------------------------------------------------------
-- The calls of the SDK
-----------------------------------------------------------------------------------------

/-- A number of the client, by the text that `JSON.stringify` gives it. -/
inductive SdkNumber
  /-- digits, after a sign if it is negative -/
  | integer (n : Int)
  /-- digits with a fraction or an exponent -/
  | fraction
  /-- `null`, which stands for infinities and what is not a number -/
  | notFinite
  deriving DecidableEq

/-- A number as serde_json reads its text. -/
def SdkNumber.value : SdkNumber → ParamValue
  | .integer n =>
      if 0 ≤ n then if n < 2 ^ 64 then .posInt (UInt64.ofNat n.toNat) else .float
      else if -2 ^ 63 ≤ n then .negInt (Int64.ofInt n) else .float
  | .fraction => .float
  | .notFinite => .null

/-- A coordinate as the node takes it over. -/
def SdkNumber.integral : SdkNumber → Int64
  | .integer n => if -2 ^ 63 ≤ n ∧ n < 2 ^ 63 then Int64.ofInt n else 0
  | .fraction => 0
  | .notFinite => 0

theorem SdkNumber.asI64_value (number : SdkNumber)
    : number.value.asI64.getD 0 = number.integral := by
  cases number with
  | fraction => rfl
  | notFinite => rfl
  | integer n =>
      simp only [value, integral]
      by_cases positive : 0 ≤ n
      · rw [if_pos positive]
        by_cases fits : n < 2 ^ 64
        · rw [if_pos fits]
          have same : (UInt64.ofNat n.toNat).toNat = n.toNat := by
            rw [UInt64.toNat_ofNat', Nat.mod_eq_of_lt (by omega)]
          by_cases small : n < 2 ^ 63
          · rw [if_pos ⟨by omega, small⟩]
            simp only [ParamValue.asI64, same]
            rw [if_pos (by omega), Int.toNat_of_nonneg positive]
            rfl
          · rw [if_neg (fun bounds => small bounds.2)]
            simp only [ParamValue.asI64, same]
            rw [if_neg (by omega)]
            rfl
        · rw [if_neg fits, if_neg (by omega)]
          rfl
      · rw [if_neg positive]
        by_cases fits : -2 ^ 63 ≤ n
        · rw [if_pos fits, if_pos ⟨fits, by omega⟩]
          rfl
        · rw [if_neg fits, if_neg (fun bounds => fits bounds.1)]
          rfl

theorem SdkNumber.asU64_value (n : Int)
    : (SdkNumber.integer n).value.asU64
      = if 0 ≤ n ∧ n < 2 ^ 64 then some (UInt64.ofNat n.toNat) else none := by
  simp only [value]
  by_cases positive : 0 ≤ n
  · by_cases fits : n < 2 ^ 64
    · rw [if_pos positive, if_pos fits, if_pos ⟨positive, fits⟩]
      rfl
    · rw [if_pos positive, if_neg fits, if_neg (fun bounds => fits bounds.2)]
      rfl
  · have refused : ¬ (0 ≤ n ∧ n < 2 ^ 64) := fun bounds => positive bounds.1
    rw [if_neg positive, if_neg refused]
    split <;> rfl

/-- The game actions that a session submits. -/
inductive SdkAction
  | move (x y z : SdkNumber)
  | attack (targetEntityId : SdkNumber)
  | chat (message : String)
  | respawn
  deriving DecidableEq

namespace SdkAction

/-- The type and the parameters that an action is submitted with. -/
def request : SdkAction → String × Params
  | .move x y z => ("move", [("x", x.value), ("y", y.value), ("z", z.value)])
  | .attack targetEntityId => ("attack", [("target_entity_id", targetEntityId.value)])
  | .chat message => ("chat", [("message", .string message)])
  | .respawn => ("respawn", [])

/-- The game action that the node makes of a submitted one: coordinates that are no integers of
64 bits become zero, and an attack needs such an integer that is not negative.
-/
def arrives : SdkAction → Option GameAction
  | .move x y z => some (.move x.integral y.integral z.integral)
  | .attack (.integer n) => if 0 ≤ n ∧ n < 2 ^ 64 then some (.attack n.toNat) else none
  | .attack _ => none
  | .chat message => some (.chat message)
  | .respawn => some .respawn

theorem parse_request (sent : SdkAction)
    : parseGameAction sent.request.1 sent.request.2
      = match sent.arrives with
        | some action => .ok action
        | none => .error (invalidParams "Missing target_entity_id") := by
  cases sent with
  | move x y z =>
      change Except.ok (GameAction.move (x.value.asI64.getD 0) (y.value.asI64.getD 0)
        (z.value.asI64.getD 0)) = _
      simp only [SdkNumber.asI64_value, arrives]
  | attack target =>
      cases target with
      | integer n =>
          have found
              : (List.lookup "target_entity_id"
                  [("target_entity_id", (SdkNumber.integer n).value)]).bind ParamValue.asU64
                = if 0 ≤ n ∧ n < 2 ^ 64 then some (UInt64.ofNat n.toNat) else none :=
            SdkNumber.asU64_value n
          simp only [request, parseGameAction, arrives, found]
          by_cases fits : 0 ≤ n ∧ n < 2 ^ 64
          · rw [if_pos fits, if_pos fits]
            simp only
            rw [UInt64.toNat_ofNat', Nat.mod_eq_of_lt (by omega)]
          · rw [if_neg fits, if_neg fits]
      | fraction => rfl
      | notFinite => rfl
  | chat message => rfl
  | respawn => rfl

end SdkAction

end VeloChain
