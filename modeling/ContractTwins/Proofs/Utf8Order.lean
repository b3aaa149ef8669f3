import ContractTwins.Proofs.Utf8Lines
import Mathlib.Data.List.Lex

/-!
The bytes of a character say its number with the leading digits first, and the first byte grows with
their count. So texts stand in the order of their bytes.
-/
namespace ContractTwins.Text

section Bytes

variable {a b : Nat}

theorem byte_lt_iff (smallA : a < 256) (smallB : b < 256) :
    UInt8.ofNat a < UInt8.ofNat b ↔ a < b := UInt8.ofNat_lt_iff_lt smallA smallB

theorem byte_eq_iff (smallA : a < 256) (smallB : b < 256) :
    UInt8.ofNat a = UInt8.ofNat b ↔ a = b := by
  rw [← UInt8.toNat_inj, UInt8.toNat_ofNat', UInt8.toNat_ofNat', Nat.mod_eq_of_lt smallA,
    Nat.mod_eq_of_lt smallB]

end Bytes

/-- Characters are told apart by their bytes, whatever follows. -/
theorem encoded_lt {c d : Char} (below : c < d) (restC restD : List UInt8) :
    String.utf8EncodeChar c ++ restC < String.utf8EncodeChar d ++ restD := by
  have lower : c.val.toNat < d.val.toNat := below
  have bound : d.val.toNat < 0x110000 := by
    rcases d.valid with low | ⟨-, high⟩
    · exact Nat.lt_of_lt_of_le low (by decide)
    · exact high
  simp only [String.utf8EncodeChar]
  generalize c.val.toNat = n at lower
  generalize d.val.toNat = m at lower bound
  -- The digits of a number to the base 64, each from the quotient before it.
  have second : ∀ k, k / 4096 = k / 64 / 64 := fun k => (Nat.div_div_eq_div_mul k 64 64).symm
  have third : ∀ k, k / 262144 = k / 64 / 64 / 64 := by
    intro k
    rw [Nat.div_div_eq_div_mul, Nat.div_div_eq_div_mul]
  simp only [second, third]
  split_ifs <;>
    simp (disch := omega) only [List.cons_append, List.nil_append, List.cons_lt_cons_iff,
      byte_lt_iff, byte_eq_iff] <;>
    omega

theorem flatMap_encoded_lt {a b : List Char} (below : a.Lex (· < ·) b) :
    a.flatMap String.utf8EncodeChar < b.flatMap String.utf8EncodeChar := by
  induction below with
  | nil =>
    rename_i d rest
    obtain ⟨first, more, encoded⟩ :=
      List.exists_cons_of_ne_nil (String.utf8EncodeChar_ne_nil (c := d))
    rw [List.flatMap_nil, List.flatMap_cons, encoded]
    exact .nil
  | cons later ih => exact List.Lex.append_left _ ih _
  | rel first => exact encoded_lt first _ _

theorem bytes_lt_bytes {a b : String} (below : a < b) : bytes a < bytes b := by
  rw [← String.ofList_toList (s := a), ← String.ofList_toList (s := b), bytes_ofList, bytes_ofList]
  exact flatMap_encoded_lt below

end ContractTwins.Text
