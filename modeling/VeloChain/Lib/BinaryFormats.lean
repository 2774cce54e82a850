import VeloChain.Lib.Bytes

/-! Binary formats whose numbers have their least significant byte first.
A framed file is made of sections, each behind its length in a fixed number of bytes. It is read
back, with the rest of the file, where its length fits that number of bytes. Bincode in its
default configuration gives integers a fixed width, lengths 64 bits and the index of a variant
32; structures and tuples are their fields, one after the other.
-/

namespace Framing

/-- The number whose little-endian digits are the given bytes. -/
def fromLittleEndian (bytes : Bytes) : Nat := Bytes.toNat bytes.reverse

/-- Read exactly as many bytes as asked for. -/
def readExact (count : Nat) (file : Bytes) : Option (Bytes × Bytes) :=
  if file.length < count then none else some (file.take count, file.drop count)

/-- A section: the length of its content in `width` bytes, and the content. -/
def frame (width : Nat) (content : Bytes) : Bytes :=
  Bytes.littleEndian width content.length ++ content

/-- Read a section. -/
def readSection (width : Nat) (file : Bytes) : Option (Bytes × Bytes) :=
  match readExact width file with
  | none => none
  | some (length, rest) => readExact (fromLittleEndian length) rest

@[simp]
theorem length_littleEndian (width n : Nat) : (Bytes.littleEndian width n).length = width := by
  rw [Bytes.littleEndian, List.length_reverse, Bytes.length_bigEndian]

/-- Reading back a written number keeps what fits the width. -/
@[simp]
theorem fromLittleEndian_littleEndian (width n : Nat)
    : fromLittleEndian (Bytes.littleEndian width n) = n % 256 ^ width := by
  rw [fromLittleEndian, Bytes.littleEndian, List.reverse_reverse, Bytes.toNat_bigEndian]

@[simp]
theorem readExact_append (content rest : Bytes)
    : readExact content.length (content ++ rest) = some (content, rest) := by
  have enough : ¬ (content ++ rest).length < content.length := by
    rw [List.length_append]
    omega
  rw [readExact, if_neg enough, List.take_left, List.drop_left]

/-- A section whose length fits is read back. -/
theorem readSection_frame {width : Nat} {content : Bytes} (fits : content.length < 256 ^ width)
    (rest : Bytes)
    : readSection width (frame width content ++ rest) = some (content, rest) := by
  have length := readExact_append (Bytes.littleEndian width content.length) (content ++ rest)
  rw [length_littleEndian] at length
  rw [readSection, frame, List.append_assoc, length]
  simp only [fromLittleEndian_littleEndian, Nat.mod_eq_of_lt fits, readExact_append]

end Framing

namespace Bincode

/-- An unsigned integer of `width` bytes. -/
def uint (width n : Nat) : Bytes := Bytes.littleEndian width n

def bool (value : Bool) : Bytes := uint 1 (if value then 1 else 0)

/-- The variant of an enumeration with its fields already encoded. -/
def variant (index : Nat) (fields : Bytes) : Bytes := uint 4 index ++ fields

variable {α β : Type}

def option (code : α → Bytes) : Option α → Bytes
  | none => uint 1 0
  | some value => uint 1 1 ++ code value

/-- A sequence: its length and its items. -/
def seq (code : α → Bytes) (items : List α) : Bytes := uint 8 items.length ++ items.flatMap code

/-- A string: the length of its UTF-8 form and these bytes. -/
def string (text : String) : Bytes := seq (fun byte => [byte]) text.toUTF8.toList

/-- A map: the number of its entries, and keys and values in the order of the walk. -/
def map (key : α → Bytes) (value : β → Bytes) (entries : List (α × β)) : Bytes :=
  seq (fun entry => key entry.1 ++ value entry.2) entries

@[simp]
theorem length_uint (width n : Nat) : (uint width n).length = width := by
  rw [uint, Bytes.littleEndian, List.length_reverse, Bytes.length_bigEndian]

/-- Numbers below the bound of the width have different encodings. -/
theorem uint_inj {width n m : Nat} (hn : n < 256 ^ width) (hm : m < 256 ^ width)
    (same : uint width n = uint width m)
    : n = m :=
  Bytes.bigEndian_inj hn hm (List.reverse_injective same)

/-- Two walks of one map whose keys fit their width are equal if they are encoded equally:
every entry begins with its key.
-/
theorem map_walk_inj {width : Nat} (positive : 0 < width) {value : β → Bytes} {get : Nat → β}
    {left right : List Nat}
    (fitLeft : ∀ k ∈ left, k < 256 ^ width) (fitRight : ∀ k ∈ right, k < 256 ^ width)
    (same
      : map (uint width) value (left.map (fun k => (k, get k)))
        = map (uint width) value (right.map (fun k => (k, get k))))
    : left = right := by
  have entries := (List.append_inj same (by rw [length_uint, length_uint])).2
  rw [List.flatMap_map, List.flatMap_map] at entries
  exact Bytes.headed_flatMap_inj positive (length_uint width)
    (fun k memK k' memK' => uint_inj (fitLeft k memK) (fitRight k' memK')) entries

end Bincode
