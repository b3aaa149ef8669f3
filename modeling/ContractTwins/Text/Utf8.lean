/-!
Text as UTF-8 bytes. The bytes of a text read back as that text; other bytes can be shown, though not
read.
-/
namespace ContractTwins.Text

def bytes (text : String) : List UInt8 :=
  text.toByteArray.data.toList

def ofBytes? (raw : List UInt8) : Option String :=
  (ByteArray.utf8Decode? ⟨raw.toArray⟩).map fun chars => String.ofList chars.toList

theorem ofBytes?_bytes (text : String) : ofBytes? (bytes text) = some text := by
  have whole : (⟨(bytes text).toArray⟩ : ByteArray) = text.toList.utf8Encode := by
    rw [String.utf8Encode_toList]
    simp [bytes]
  rw [ofBytes?, whole, List.utf8Decode?_utf8Encode]
  simp

theorem bytes_injective {a b : String} (same : bytes a = bytes b) : a = b := by
  have read := ofBytes?_bytes a
  rw [same, ofBytes?_bytes] at read
  exact (Option.some.inj read).symm

def tailBounds? (first : UInt8) : Option (List (UInt8 × UInt8)) :=
  let tail : UInt8 × UInt8 := (0x80, 0xBF)
  if first < 0x80 then some []
  else if first < 0xC2 then none
  else if first < 0xE0 then some [tail]
  else if first = 0xE0 then some [(0xA0, 0xBF), tail]
  else if first = 0xED then some [(0x80, 0x9F), tail]
  else if first < 0xF0 then some [tail, tail]
  else if first = 0xF0 then some [(0x90, 0xBF), tail, tail]
  else if first < 0xF4 then some [tail, tail, tail]
  else if first = 0xF4 then some [(0x80, 0x8F), tail, tail]
  else none

/-- A character of which some bytes are read, and the bounds of those that it lacks. -/
structure Begun where
  read : List UInt8
  due : List (UInt8 × UInt8)

namespace Begun

def nothing : Begun := ⟨[], []⟩

def replacement : Char := '\uFFFD'

def first (byte : UInt8) : List Char × Begun :=
  match tailBounds? byte with
  | none => ([replacement], nothing)
  | some [] => ([Char.ofNat byte.toNat], nothing)
  | some due => ([], ⟨[byte], due⟩)

/-- Reads a byte. If the character cannot go on with it, the bytes before it are one fault. -/
def next (begun : Begun) (byte : UInt8) : List Char × Begun :=
  match begun.due with
  | [] => first byte
  | (low, high) :: due =>
    if byte < low ∨ high < byte then
      let (chars, begun) := first byte
      (replacement :: chars, begun)
    else
      match due, ofBytes? (begun.read ++ [byte]) with
      | [], some text => (text.toList, nothing)
      | due, _ => ([], ⟨begun.read ++ [byte], due⟩)

def rest (begun : Begun) : List UInt8 → List Char
  | [] => if begun.read.isEmpty then [] else [replacement]
  | byte :: more =>
    let (chars, begun) := begun.next byte
    chars ++ begun.rest more

end Begun

def shown (raw : List UInt8) : String :=
  match ofBytes? raw with
  | some text => text
  | none => String.ofList (Begun.nothing.rest raw)

theorem shown_bytes (text : String) : shown (bytes text) = text := by
  rw [shown, ofBytes?_bytes]

example : shown [0x61, 0xF0, 0x9F, 0x92, 0x62, 0xC3, 0xBC, 0xED, 0xA0, 0xFF] =
    "a\uFFFDbü\uFFFD\uFFFD\uFFFD" := by decide

end ContractTwins.Text
