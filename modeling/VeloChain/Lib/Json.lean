import VeloChain.Lib.Bytes

/-! JSON texts without blanks, as serializers write them.
A number is given by its text, a string by what stands between its quotes; how a language writes
the two is up to its serializer.
-/

inductive Json
  | null
  | number (text : Bytes)
  | string (content : Bytes)
  | array (items : List Json)
  | object (members : List (Bytes × Json))

namespace Json

/-- ASCII text as bytes. -/
def ascii (text : String) : Bytes := text.toList.map (fun c => UInt8.ofNat c.toNat)

/-- A string in its quotes. -/
def quoted (content : Bytes) : Bytes := ascii "\"" ++ content ++ ascii "\""

mutual

/-- The text of a value. -/
def render : Json → Bytes
  | .null => ascii "null"
  | .number text => text
  | .string content => quoted content
  | .array items => ascii "[" ++ renderItems items ++ ascii "]"
  | .object members => ascii "\x7b" ++ renderMembers members ++ ascii "\x7d"

/-- The items of an array, with commas between them. -/
def renderItems : List Json → Bytes
  | [] => []
  | [item] => item.render
  | item :: rest => item.render ++ ascii "," ++ renderItems rest

/-- The members of an object, with commas between them. -/
def renderMembers : List (Bytes × Json) → Bytes
  | [] => []
  | [(key, value)] => quoted key ++ ascii ":" ++ value.render
  | (key, value) :: rest =>
      quoted key ++ ascii ":" ++ value.render ++ ascii "," ++ renderMembers rest

end

/-- The digits of a number. -/
def decimal (n : Nat) : Bytes := (Nat.toDigits 10 n).map (fun c => UInt8.ofNat c.toNat)

/-- The digits of an integer, after its sign. -/
def signedDecimal (n : Int) : Bytes :=
  if n < 0 then ascii "-" ++ decimal n.natAbs else decimal n.natAbs

/-- A hexadecimal digit in lower case. -/
def hexDigit (n : Nat) : UInt8 := UInt8.ofNat (if n < 10 then 48 + n else 87 + n)

/-- A code unit as an escape of four digits. -/
def unicodeEscape (code : Nat) : Bytes :=
  ascii "\\u"
    ++ [hexDigit (code / 4096 % 16), hexDigit (code / 256 % 16), hexDigit (code / 16 % 16),
      hexDigit (code % 16)]

/-- The escape of a quote, a backslash or a control character. -/
def escape (code : Nat) : Option Bytes :=
  match code with
  | 8 => some (ascii "\\b")
  | 9 => some (ascii "\\t")
  | 10 => some (ascii "\\n")
  | 12 => some (ascii "\\f")
  | 13 => some (ascii "\\r")
  | 34 => some (ascii "\\\"")
  | 92 => some (ascii "\\\\")
  | code => if code < 32 then some (unicodeEscape code) else none

/-- The content of a string of characters. -/
def escapeString (text : String) : Bytes :=
  text.toList.flatMap (fun c => (escape c.toNat).getD (String.utf8EncodeChar c))

/-- The text of an object begins with its first key. -/
theorem render_object_cons (key : Bytes) (value : Json) (rest : List (Bytes × Json))
    : ∃ after,
        (Json.object ((key, value) :: rest)).render
          = ascii "\x7b" ++ quoted key ++ ascii ":" ++ value.render ++ after := by
  cases rest with
  | nil => exact ⟨ascii "\x7d", by simp [render, renderMembers]⟩
  | cons next rest =>
      exact ⟨ascii "," ++ renderMembers (next :: rest) ++ ascii "\x7d", by
        simp [render, renderMembers]⟩

end Json
