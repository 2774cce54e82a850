import VeloChain.Primitives.Types

/-! Signing, signer recovery and transaction hashes.
The hash function, the curve operations and the JSON encoder come from other libraries; they
are the fields of `Crypto`, and everything built from them is translated here.
-/

namespace VeloChain

inductive PrimitivesError
  | signatureError (message : String)
  deriving DecidableEq

instance : ToString PrimitivesError where
  toString
    | .signatureError message => s!"Invalid signature: {message}"

/-- The functions of sha3, k256 and serde_json that the primitives use.
`signatureFromBytes` and `recoverFromPrehash` take the `r` and `s` words of a signature;
a verifying key is its uncompressed point without the leading 0x04 byte.
-/
structure Crypto where
  keccak256 : Bytes → B256
  verifyingKey : B256 → Option Bytes
  signPrehash : B256 → B256 → Except String (B256 × B256 × UInt8)
  signatureFromBytes : B256 → B256 → Except String Unit
  recoverFromPrehash : B256 → B256 → B256 → UInt8 → Except String Bytes
  transactionJson : Transaction → Bytes
  signatureJson : Signature → Bytes

variable (crypto : Crypto)

/-- The last 20 bytes of the hash of the public key. -/
def publicKeyToAddress (key : Bytes) : Address :=
  BitVec.ofNat 160 (Bytes.toNat ((hashSlice (crypto.keccak256 key)).drop 12))

/-- A keypair for signing transactions and blocks. -/
structure Keypair where
  signingKey : B256
  address : Address
  deriving DecidableEq

/-- Create a keypair from a raw 32-byte private key. -/
def Keypair.fromSecretKey (secret : B256) : Except PrimitivesError Keypair :=
  match crypto.verifyingKey secret with
  | none => .error (.signatureError "Invalid secret key: signature error")
  | some key => .ok { signingKey := secret, address := publicKeyToAddress crypto key }

/-- Sign a 32-byte message hash, returning the words of the signature and the recovery id. -/
def Keypair.signHash (keypair : Keypair) (hash : B256)
    : Except PrimitivesError (B256 × B256 × UInt8) :=
  match crypto.signPrehash keypair.signingKey hash with
  | .error e => .error (.signatureError s!"Signing failed: {e}")
  | .ok signature => .ok signature

/-- Recover the signer's address from a message hash and signature. The recovery id is
truncated to a byte before its range is checked.
-/
def recoverSigner (hash : B256) (v : UInt64) (r s : B256) : Except PrimitivesError Address :=
  match crypto.signatureFromBytes r s with
  | .error e => .error (.signatureError s!"Invalid signature bytes: {e}")
  | .ok () =>
      let recoveryId := if v ≥ 27 then v - 27 else v
      let recid := recoveryId.toUInt8
      if recid ≥ 4 then .error (.signatureError "Invalid recovery id: signature error")
      else
        match crypto.recoverFromPrehash hash r s recid with
        | .error e => .error (.signatureError s!"Recovery failed: {e}")
        | .ok key => .ok (publicKeyToAddress crypto key)

/-- Signing with a valid secret key yields a signature from which its own key is recovered,
with a recovery id below 4.
-/
def Crypto.SignsRecoverably : Prop :=
  ∀ secret key, crypto.verifyingKey secret = some key →
    ∀ hash, ∃ r s recid,
      crypto.signPrehash secret hash = .ok (r, s, recid)
      ∧ recid < 4
      ∧ crypto.signatureFromBytes r s = .ok ()
      ∧ crypto.recoverFromPrehash hash r s recid = .ok key

/-- Compute the signing hash for a transaction. -/
def Transaction.signingHash (tx : Transaction) : B256 :=
  crypto.keccak256 (crypto.transactionJson tx)

/-- The hash of a transaction with its signature: both encodings, one after the other. -/
def SignedTransaction.computeHash (tx : Transaction) (signature : Signature) : B256 :=
  crypto.keccak256 (crypto.transactionJson tx ++ crypto.signatureJson signature)

/-- Recover the sender address from the ECDSA signature. -/
def SignedTransaction.sender (tx : SignedTransaction) : Except PrimitivesError Address :=
  recoverSigner crypto (tx.transaction.signingHash crypto) tx.signature.v tx.signature.r
    tx.signature.s

/-- The transactions of one sender. -/
def sentBy (sender : Address) (txs : List SignedTransaction) : List SignedTransaction :=
  txs.filter (fun tx => decide (tx.sender crypto = .ok sender))

theorem sentBy_cons_of_sender {crypto : Crypto} {sender : Address} {tx : SignedTransaction}
    (recovered : tx.sender crypto = .ok sender) (rest : List SignedTransaction)
    : sentBy crypto sender (tx :: rest) = tx :: sentBy crypto sender rest :=
  List.filter_cons_of_pos (decide_eq_true recovered)

theorem sentBy_cons_of_ne {crypto : Crypto} {sender other : Address} {tx : SignedTransaction}
    (recovered : tx.sender crypto = .ok sender) (ne : other ≠ sender)
    (rest : List SignedTransaction)
    : sentBy crypto other (tx :: rest) = sentBy crypto other rest := by
  apply List.filter_cons_of_neg
  rw [decide_eq_true_eq, recovered]
  exact fun same => ne (Except.ok.inj same).symm

/-- A signature made by a keypair recovers to the keypair's address. -/
theorem Crypto.SignsRecoverably.recoverSigner {crypto : Crypto}
    (sound : crypto.SignsRecoverably) {secret : B256} {keypair : Keypair}
    (made : Keypair.fromSecretKey crypto secret = .ok keypair) (hash : B256)
    : ∃ r s recid,
        keypair.signHash crypto hash = .ok (r, s, recid)
        ∧ VeloChain.recoverSigner crypto hash recid.toUInt64 r s = .ok keypair.address := by
  unfold Keypair.fromSecretKey at made
  cases found : crypto.verifyingKey secret with
  | none => simp [found] at made
  | some key =>
      simp only [found, Except.ok.injEq] at made
      subst made
      obtain ⟨r, s, recid, signed, small, parsed, recovered⟩ := sound secret key found hash
      refine ⟨r, s, recid, by simp only [Keypair.signHash, signed], ?_⟩
      have below : ¬ recid.toUInt64 ≥ 27 := by
        simp only [ge_iff_le, UInt64.le_iff_toNat_le, UInt64.toNat_ofNat, UInt8.toNat_toUInt64]
        have := UInt8.lt_iff_toNat_lt.mp small
        simp only [UInt8.toNat_ofNat] at this
        omega
      simp only [VeloChain.recoverSigner, parsed, below, if_false, UInt8.toUInt8_toUInt64,
        recovered, ge_iff_le, UInt8.not_le.mpr small]

/-- An instance for evaluation: a hash keeps the last 32 bytes, and the `r` word of a
signature is the secret key, which is its own public key.
-/
def Crypto.disclosing : Crypto :=
  { keccak256 := hashFromSlice
    verifyingKey := fun secret => some (hashSlice secret)
    signPrehash := fun secret _ => .ok (secret, 0, 0)
    signatureFromBytes := fun _ _ => .ok ()
    recoverFromPrehash := fun _ r _ _ => .ok (hashSlice r)
    transactionJson := fun tx => Bytes.bigEndian 8 tx.nonce
    signatureJson := fun signature => hashSlice signature.r }

theorem Crypto.disclosing_signsRecoverably : Crypto.disclosing.SignsRecoverably := by
  intro secret key known hash
  exact ⟨secret, 0, 0, rfl, by decide, rfl, congrArg Except.ok (Option.some.inj known)⟩

end VeloChain
