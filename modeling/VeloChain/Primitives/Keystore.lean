import VeloChain.Primitives.Crypto

/-! Keystore files: a secret key under the hash of a password.
The file notes the address of the key; loading does not look at it, and the mask takes any
password, so that a wrong one opens the file with another key.
-/

namespace VeloChain

-----------------------------------------------------------------------------------------
-- Hexadecimal text
-----------------------------------------------------------------------------------------

/-- Why a text is not hexadecimal. -/
inductive FromHexError
  | oddLength
  | invalidHexCharacter (c : UInt8) (index : Nat)
  deriving DecidableEq

/-- The value of a hexadecimal digit in either case. -/
def hexValue (c : UInt8) : Option UInt8 :=
  if 65 ≤ c ∧ c ≤ 70 then some (c - 65 + 10)
  else if 97 ≤ c ∧ c ≤ 102 then some (c - 97 + 10)
  else if 48 ≤ c ∧ c ≤ 57 then some (c - 48)
  else none

/-- Decode pairs of digits, the first of which stands at `index`. -/
def hexPairs (index : Nat) : Bytes → Except FromHexError Bytes
  | [] => .ok []
  | [_] => .error .oddLength
  | high :: low :: rest =>
      match hexValue high with
      | none => .error (.invalidHexCharacter high index)
      | some highValue =>
          match hexValue low with
          | none => .error (.invalidHexCharacter low (index + 1))
          | some lowValue =>
              match hexPairs (index + 2) rest with
              | .error e => .error e
              | .ok bytes => .ok ((highValue <<< 4 ||| lowValue) :: bytes)

/-- The UTF-8 bytes of a text. -/
def utf8 (text : String) : Bytes := text.toList.flatMap String.utf8EncodeChar

/-- Decode a hexadecimal text without a prefix. -/
def hexDecode (text : String) : Except FromHexError Bytes :=
  if (utf8 text).length % 2 ≠ 0 then .error .oddLength else hexPairs 0 (utf8 text)

/-- A digit is one byte, which has its value. -/
theorem hexValue_hexDigit {n : Nat} (small : n < 16)
    : ∃ c, String.utf8EncodeChar (hexDigit n) = [c] ∧ hexValue c = some (UInt8.ofNat n) := by
  have all
      : ∀ m : Fin 16,
          String.utf8EncodeChar (hexDigit m) = [UInt8.ofNat (hexDigit m).toNat]
          ∧ hexValue (UInt8.ofNat (hexDigit m).toNat) = some (UInt8.ofNat m) := by
    decide +kernel
  exact ⟨_, all ⟨n, small⟩⟩

/-- A byte is put together from its digits. -/
theorem digits_or (byte : UInt8)
    : UInt8.ofNat (byte.toNat / 16) <<< 4 ||| UInt8.ofNat (byte.toNat % 16) = byte := by
  have all
      : ∀ n : Fin 256,
          UInt8.ofNat (n / 16) <<< 4 ||| UInt8.ofNat (n % 16) = UInt8.ofNat n := by
    decide +kernel
  exact (all ⟨byte.toNat, byte.toNat_lt⟩).trans UInt8.ofNat_toNat

/-- Encoded bytes are decoded, by induction on the bytes. -/
theorem hexDecode_hexEncode (bytes : Bytes) : hexDecode (hexEncode bytes) = .ok bytes := by
  have pairs (bytes : Bytes) (index : Nat)
      : let text :=
          (bytes.flatMap fun byte =>
            [hexDigit (byte.toNat / 16), hexDigit (byte.toNat % 16)]).flatMap String.utf8EncodeChar
        text.length % 2 = 0 ∧ hexPairs index text = .ok bytes := by
    induction bytes generalizing index with
    | nil => exact ⟨rfl, rfl⟩
    | cons byte rest ih =>
        obtain ⟨high, isHigh, highValue⟩ :=
          hexValue_hexDigit (show byte.toNat / 16 < 16 by have := byte.toNat_lt; omega)
        obtain ⟨low, isLow, lowValue⟩ :=
          hexValue_hexDigit (show byte.toNat % 16 < 16 by omega)
        obtain ⟨even, decoded⟩ := ih (index + 2)
        simp only [List.flatMap_cons, List.cons_append, List.nil_append, isHigh, isLow, hexPairs,
          highValue, lowValue, decoded, digits_or, List.length_cons]
        exact ⟨by omega, trivial⟩
  obtain ⟨even, decoded⟩ := pairs bytes 0
  have text
      : utf8 (hexEncode bytes)
        = (bytes.flatMap fun byte =>
            [hexDigit (byte.toNat / 16), hexDigit (byte.toNat % 16)]).flatMap
              String.utf8EncodeChar := by
    rw [utf8, hexEncode, String.toList_ofList]
  rw [hexDecode, text, if_neg (by simpa using even)]
  exact decoded

theorem hexEncode_injective : Function.Injective hexEncode := by
  intro left right same
  have decoded := hexDecode_hexEncode left
  rw [same, hexDecode_hexEncode] at decoded
  exact (Except.ok.inj decoded).symm

/-- Addresses have different texts. -/
theorem debugAddress_inj {left right : Address}
    : debugAddress left = debugAddress right ↔ left = right := by
  refine ⟨fun same => ?_, congrArg debugAddress⟩
  have text : hexEncode (addressSlice left) = hexEncode (addressSlice right) := by
    have lists := congrArg String.toList same
    rw [debugAddress, debugAddress, hexText, hexText, String.toList_append,
      String.toList_append] at lists
    exact String.toList_inj.mp (List.append_cancel_left lists)
  exact addressSlice_inj.mp (hexEncode_injective text)

-----------------------------------------------------------------------------------------
-- Keystore files
-----------------------------------------------------------------------------------------

/-- A JSON value; a number is given by its text. -/
inductive SerdeValue
  | null
  | bool (value : Bool)
  | number (text : String)
  | string (text : String)
  | array (items : List SerdeValue)
  | object (members : List (String × SerdeValue))

/-- A member of an object; what is missing is `null`. -/
def SerdeValue.index (key : String) : SerdeValue → SerdeValue
  | .object members => (members.lookup key).getD .null
  | _ => .null

def SerdeValue.asStr : SerdeValue → Option String
  | .string text => some text
  | _ => none

/-- The text of a JSON value, the value of a text, and the texts of decoding errors. -/
structure KeystoreFormat where
  toStringPretty : SerdeValue → Except String String
  fromStr : String → Except String SerdeValue
  fromHexError : FromHexError → String

/-- The text of a value is read back. -/
def KeystoreFormat.ReadsBack (format : KeystoreFormat) (value : SerdeValue) : Prop :=
  ∃ text, format.toStringPretty value = .ok text ∧ format.fromStr text = .ok value

/-- The content of a keystore file. -/
def keystoreJson (address : Address) (encrypted : Bytes) : SerdeValue :=
  .object
    [ ("address", .string (debugAddress address))
    , ("crypto",
        .object
          [ ("cipher", .string "xor-keccak256")
          , ("ciphertext", .string (hexEncode encrypted)) ])
    , ("version", .number "1") ]

/-- The ciphertext of a keystore file is found. -/
theorem ciphertext_keystoreJson (address : Address) (encrypted : Bytes)
    : (((keystoreJson address encrypted).index "crypto").index "ciphertext").asStr
      = some (hexEncode encrypted) := rfl

namespace Keypair

variable (crypto : Crypto) (format : KeystoreFormat)

/-- Put a password over the bytes of a key, or take it off. -/
def mask (password : String) (bytes : Bytes) : Bytes :=
  Bytes.xor bytes (hashSlice (crypto.keccak256 password.toUTF8.toList))

/-- Save the keypair to a keystore file; the text is what `write` has written. -/
def saveKeystore (write : String → Except String Unit) (password : String) (keypair : Keypair)
    : Except PrimitivesError String :=
  let encrypted := mask crypto password (hashSlice keypair.signingKey)
  match format.toStringPretty (keystoreJson keypair.address encrypted) with
  | .error e => .error (.signatureError s!"Serialize keystore: {e}")
  | .ok data =>
      match write data with
      | .error e => .error (.signatureError s!"Write keystore: {e}")
      | .ok () => .ok data

/-- Load a keypair from what has been read of a keystore file. -/
def loadKeystore (file : Except String String) (password : String)
    : Except PrimitivesError Keypair :=
  match file with
  | .error e => .error (.signatureError s!"Read keystore: {e}")
  | .ok data =>
      match format.fromStr data with
      | .error e => .error (.signatureError s!"Parse keystore: {e}")
      | .ok keystore =>
          match ((keystore.index "crypto").index "ciphertext").asStr with
          | none => .error (.signatureError "Missing ciphertext")
          | some ciphertext =>
              match hexDecode ciphertext with
              | .error e =>
                  .error (.signatureError s!"Decode ciphertext: {format.fromHexError e}")
              | .ok encrypted =>
                  if encrypted.length ≠ 32 then
                    .error (.signatureError "Invalid ciphertext length")
                  else fromSecretKey crypto (hashFromSlice (mask crypto password encrypted))

/-- The address that a keystore file notes. -/
def storedAddress (data : String) : Option String :=
  match format.fromStr data with
  | .error _ => none
  | .ok keystore => (keystore.index "address").asStr

/-- The saved file gives the keypair with its password, and with another one nothing or a keypair
of the address noted in the file.
-/
def KeystoreSafe (keypair : Keypair) (password other : String) : Prop :=
  ∀ write data, keypair.saveKeystore crypto format write password = .ok data →
    loadKeystore crypto format (.ok data) password = .ok keypair
    ∧ (other ≠ password →
        ∀ loaded, loadKeystore crypto format (.ok data) other = .ok loaded →
          storedAddress format data = some (debugAddress loaded.address))

variable {crypto format} {keypair : Keypair}

/-- The key that the file of one password gives with another one. -/
def crossKey (crypto : Crypto) (keypair : Keypair) (password other : String) : B256 :=
  keypair.signingKey ^^^ crypto.keccak256 password.toUTF8.toList
    ^^^ crypto.keccak256 other.toUTF8.toList

theorem mask_hashSlice (password : String) (word : B256)
    : mask crypto password (hashSlice word)
      = hashSlice (word ^^^ crypto.keccak256 password.toUTF8.toList) := by
  rw [mask, hashSlice, hashSlice, hashSlice, BitVec.toNat_xor, Bytes.bigEndian_xor]

/-- A password takes itself off. -/
theorem crossKey_self (password : String)
    : crossKey crypto keypair password password = keypair.signingKey := by
  rw [crossKey, BitVec.xor_assoc, BitVec.xor_self, BitVec.xor_zero]

/-- A keypair has the secret key that it has been made of. -/
theorem signingKey_fromSecretKey {secret : B256} (made : fromSecretKey crypto secret = .ok keypair)
    : keypair.signingKey = secret := by
  unfold fromSecretKey at made
  split at made
  next => cases made
  next =>
    obtain rfl := Except.ok.inj made
    rfl

/-- A saved file notes the address of the keypair, and any password gives the key under the two
masks.
-/
theorem loadKeystore_saveKeystore {password : String}
    (reads
      : format.ReadsBack
          (keystoreJson keypair.address
            (mask crypto password (hashSlice keypair.signingKey))))
    {write : String → Except String Unit} {data : String}
    (saved : keypair.saveKeystore crypto format write password = .ok data)
    : storedAddress format data = some (debugAddress keypair.address)
      ∧ ∀ other,
          loadKeystore crypto format (.ok data) other
          = fromSecretKey crypto (crossKey crypto keypair password other) := by
  obtain ⟨text, printed, parsed⟩ := reads
  obtain rfl : text = data := by
    simp only [saveKeystore, printed] at saved
    cases written : write text with
    | error e => simp [written] at saved
    | ok => simpa [written] using saved
  refine ⟨by simp only [storedAddress, parsed]; rfl, fun other => ?_⟩
  simp only [loadKeystore, parsed, ciphertext_keystoreJson, hexDecode_hexEncode]
  rw [mask_hashSlice, length_hashSlice, mask_hashSlice, hashFromSlice_hashSlice]
  rfl

/-- For every keypair, both passwords and every hash function: the keystore is safe exactly when
the other password is the same one, or the key that it gives is not valid or has the same
address.
-/
theorem keystoreSafe_iff {secret : B256} (made : fromSecretKey crypto secret = .ok keypair)
    (password other : String)
    (reads
      : format.ReadsBack
          (keystoreJson keypair.address
            (mask crypto password (hashSlice keypair.signingKey))))
    : KeystoreSafe crypto format keypair password other
      ↔ other = password
        ∨ ∀ key, crypto.verifyingKey (crossKey crypto keypair password other) = some key →
            publicKeyToAddress crypto key = keypair.address := by
  have opened (key : Bytes)
      (valid : crypto.verifyingKey (crossKey crypto keypair password other) = some key)
      : fromSecretKey crypto (crossKey crypto keypair password other)
        = .ok
            { signingKey := crossKey crypto keypair password other
              address := publicKeyToAddress crypto key } := by
    rw [fromSecretKey, valid]
  constructor
  · intro safe
    rw [or_iff_not_imp_left]
    intro different key valid
    obtain ⟨text, printed, -⟩ := id reads
    have saved : keypair.saveKeystore crypto format (fun _ => .ok ()) password = .ok text := by
      simp only [saveKeystore, printed]
    obtain ⟨noted, loads⟩ := loadKeystore_saveKeystore reads saved
    have same := (safe _ text saved).2 different _ ((loads other).trans (opened key valid))
    exact (debugAddress_inj.mp (Option.some.inj (noted.symm.trans same))).symm
  · intro condition write data saved
    obtain ⟨noted, loads⟩ := loadKeystore_saveKeystore reads saved
    have own : keypair.signingKey = secret := signingKey_fromSecretKey made
    refine ⟨by rw [loads, crossKey_self, own, made], fun different loaded isLoaded => ?_⟩
    have sameAddress := condition.resolve_left different
    rw [loads] at isLoaded
    cases valid : crypto.verifyingKey (crossKey crypto keypair password other) with
    | none => simp [fromSecretKey, valid] at isLoaded
    | some key =>
        obtain rfl := Except.ok.inj ((opened key valid).symm.trans isLoaded)
        rw [noted, sameAddress key valid]

end Keypair

section OfSeven

/-- The keypair of the secret key 7. -/
def Keypair.ofSeven : Keypair := { signingKey := 7, address := 7 }

/-- The content of the file of the secret key 7 under the password "a". -/
def keystoreOfSeven : SerdeValue :=
  keystoreJson Keypair.ofSeven.address
    (Keypair.mask .disclosing "a" (hashSlice Keypair.ofSeven.signingKey))

/-- The text of that file. -/
def textOfSeven : String :=
  "\x7b\n  \"address\": \"" ++ debugAddress 7 ++ "\",\n  \"crypto\": \x7b\n    \"cipher\": "
    ++ "\"xor-keccak256\",\n    \"ciphertext\": \"" ++ hexEncode (hashSlice 0x66)
    ++ "\"\n  \x7d,\n  \"version\": 1\n\x7d"

/-- A format that knows one file. -/
def KeystoreFormat.ofOne (value : SerdeValue) (text : String) : KeystoreFormat :=
  { toStringPretty := fun _ => .ok text
    fromStr := fun data => if data = text then .ok value else .error "expected value"
    fromHexError := fun _ => "Invalid character" }

theorem readsBack_keystoreOfSeven
    : (KeystoreFormat.ofOne keystoreOfSeven textOfSeven).ReadsBack keystoreOfSeven :=
  ⟨textOfSeven, rfl, by simp only [KeystoreFormat.ofOne, if_true]⟩

theorem Keypair.keystoreSafe_iff_ofSeven
    : KeystoreSafe .disclosing (.ofOne keystoreOfSeven textOfSeven) ofSeven "a" "a" :=
  (@keystoreSafe_iff .disclosing _ ofSeven 7 (by decide +kernel) "a" "a"
    readsBack_keystoreOfSeven).mpr (Or.inl rfl)

/-- The password "b" opens the file of the password "a" with the secret key 4. -/
theorem Keypair.keystoreSafe_fails
    : ¬ KeystoreSafe .disclosing (.ofOne keystoreOfSeven textOfSeven) ofSeven "a" "b" := by
  intro safe
  have saved
      : ofSeven.saveKeystore .disclosing (.ofOne keystoreOfSeven textOfSeven)
          (fun _ => .ok ()) "a" = .ok textOfSeven := rfl
  obtain ⟨noted, loads⟩ := loadKeystore_saveKeystore readsBack_keystoreOfSeven saved
  have opened
      : fromSecretKey .disclosing (crossKey .disclosing ofSeven "a" "b")
        = .ok { signingKey := 4, address := 4 } := by decide +kernel
  have same := (safe _ _ saved).2 (by decide) _ ((loads "b").trans opened)
  have equal := debugAddress_inj.mp (Option.some.inj (noted.symm.trans same))
  exact absurd equal (by decide)

end OfSeven

end VeloChain
