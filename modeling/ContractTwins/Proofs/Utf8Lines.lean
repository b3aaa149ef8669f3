import ContractTwins.Proofs.EntryLines
import ContractTwins.Text.Utf8
import Mathlib.Tactic.SplitIfs

/-!
A line feed is a byte that occurs in no other character, so bytes can be cut into lines before they
are decoded or after.
-/
namespace ContractTwins

namespace Text

def IsUtf8 (raw : List UInt8) : Prop := ∃ text : String, bytes text = raw

theorem bytes_ofList (chars : List Char) :
    bytes (String.ofList chars) = chars.flatMap String.utf8EncodeChar := by
  simp [bytes, List.utf8Encode]

theorem ofBytes?_eq_some_iff {raw : List UInt8} {text : String} :
    ofBytes? raw = some text ↔ bytes text = raw := by
  constructor
  · intro read
    obtain ⟨chars, decoded, rfl⟩ := Option.map_eq_some_iff.mp read
    have encoded : chars.toList.utf8Encode = ⟨raw.toArray⟩ := by
      have whole := ByteArray.utf8Encode_get_utf8Decode? (h := Option.isSome_of_eq_some decoded)
      rwa [Option.get_of_eq_some _ decoded] at whole
    rw [bytes, String.toByteArray_ofList, encoded]
  · rintro rfl
    exact ofBytes?_bytes text

theorem not_isUtf8_iff {raw : List UInt8} : ¬IsUtf8 raw ↔ ofBytes? raw = none := by
  simp only [IsUtf8, ← ofBytes?_eq_some_iff, not_exists, Option.eq_none_iff_forall_ne_some]

theorem newline_not_mem_encoded {c : Char} (other : c ≠ '\n') :
    (10 : UInt8) ∉ String.utf8EncodeChar c := by
  have number : c.val.toNat ≠ 10 := fun same => other (Char.ext (UInt32.toNat_inj.mp same))
  have byte (n : Nat) : 10 = UInt8.ofNat n ↔ n % 256 = 10 := by
    rw [eq_comm, ← UInt8.toNat_inj, UInt8.toNat_ofNat']
    rfl
  simp only [String.utf8EncodeChar]
  -- Only the byte of a character that has one can be below 128.
  split_ifs <;> simp only [List.mem_cons, List.not_mem_nil, or_false, byte] <;> omega

section Pieces

variable {α β : Type} [DecidableEq α] [DecidableEq β] {separator : α}

theorem pieces_append_of_not_mem {start : List α} (absent : separator ∉ start) (rest : List α) :
    pieces separator (start ++ rest) = (pieces separator rest).modifyHead (start ++ ·) := by
  obtain ⟨first, more, cut⟩ := List.exists_cons_of_ne_nil (pieces_ne_nil separator rest)
  rw [cut, List.modifyHead_cons]
  induction start with
  | nil => exact cut
  | cons a start ih =>
    rw [List.mem_cons, not_or] at absent
    rw [List.cons_append, pieces, if_neg (Ne.symm absent.1), ih absent.2]
    rfl

/-- Where only the separator is written as the other separator, a text is cut alike before and after
it is written. -/
theorem pieces_flatMap {other : β} {write : α → List β} (kept : write separator = [other])
    (absent : ∀ a ≠ separator, other ∉ write a) (text : List α) :
    pieces other (text.flatMap write) =
      (pieces separator text).map fun piece => piece.flatMap write := by
  induction text with
  | nil => rfl
  | cons a rest ih =>
    rw [List.flatMap_cons, pieces]
    split
    · rename_i same
      rw [same, kept, List.singleton_append, pieces, if_pos rfl, ih]
      rfl
    · rename_i different
      obtain ⟨first, more, cut⟩ := List.exists_cons_of_ne_nil (pieces_ne_nil separator rest)
      rw [pieces_append_of_not_mem (absent a different), ih, cut]
      rfl

end Pieces

theorem pieces_bytes (text : String) :
    pieces 10 (bytes text) =
      (pieces '\n' text.toList).map fun line => bytes (String.ofList line) := by
  have written : bytes text = text.toList.flatMap String.utf8EncodeChar := by
    rw [← bytes_ofList, String.ofList_toList]
  simp only [written, bytes_ofList]
  exact pieces_flatMap (by decide) (fun _ => newline_not_mem_encoded) text.toList

theorem isUtf8_append {a b : List UInt8} (first : IsUtf8 a) (second : IsUtf8 b) :
    IsUtf8 (a ++ b) := by
  obtain ⟨text, rfl⟩ := first
  obtain ⟨more, rfl⟩ := second
  exact ⟨text ++ more, by simp [bytes]⟩

theorem isUtf8_intercalate {lines : List (List UInt8)} (each : ∀ line ∈ lines, IsUtf8 line) :
    IsUtf8 ([10].intercalate lines) := by
  induction lines with
  | nil => exact ⟨"", rfl⟩
  | cons line rest ih =>
    rw [List.forall_mem_cons] at each
    cases rest with
    | nil => simpa using each.1
    | cons next more =>
      rw [List.intercalate_cons_cons]
      exact isUtf8_append (isUtf8_append each.1 ⟨"\n", rfl⟩) (ih each.2)

theorem isUtf8_of_pieces {raw : List UInt8} (each : ∀ line ∈ pieces 10 raw, IsUtf8 line) :
    IsUtf8 raw := by
  rw [← intercalate_pieces 10 raw]
  exact isUtf8_intercalate each

end Text

end ContractTwins
