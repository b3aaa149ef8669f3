/-!
White space as Unicode defines it, and the two cuts that rest on it: trimming a text and splitting
one into pieces at a separator. Lines are put together as they are printed.
-/
namespace ContractTwins.Text

def isBlank (c : Char) : Bool :=
  let n := c.toNat
  (0x09 ≤ n && n ≤ 0x0D) || n == 0x20 || n == 0x85 || n == 0xA0 || n == 0x1680 ||
    (0x2000 ≤ n && n ≤ 0x200A) || n == 0x2028 || n == 0x2029 || n == 0x202F || n == 0x205F ||
    n == 0x3000

def trim (text : List Char) : List Char :=
  ((text.dropWhile isBlank).reverse.dropWhile isBlank).reverse

/-- What stands between the separators. There is one piece more than there are separators. -/
def pieces {α : Type} [DecidableEq α] (separator : α) : List α → List (List α)
  | [] => [[]]
  | a :: rest =>
    if a = separator then [] :: pieces separator rest
    else
      match pieces separator rest with
      | [] => [[a]]
      | first :: more => (a :: first) :: more

def Blanks (text : List Char) : Prop := ∀ c ∈ text, isBlank c = true

def unlines (texts : List String) : String :=
  String.join (texts.map fun text => text ++ "\n")

section Trim

variable {before after : List Char}

theorem dropWhile_blanks (blanks : Blanks after) : after.dropWhile isBlank = [] := by
  have dropped : (after ++ []).dropWhile isBlank = [].dropWhile isBlank :=
    List.dropWhile_append_of_pos blanks
  rwa [List.append_nil] at dropped

theorem trim_blanks (blanks : Blanks after) : trim after = [] := by
  rw [trim, dropWhile_blanks blanks]
  rfl

theorem trim_surrounded (text : List Char) (blanksBefore : Blanks before)
    (blanksAfter : Blanks after) : trim (before ++ text ++ after) = trim text := by
  have reversed : ∀ c ∈ after.reverse, isBlank c = true :=
    fun c mem => blanksAfter c (List.mem_reverse.mp mem)
  rw [trim, trim, List.append_assoc, List.dropWhile_append_of_pos blanksBefore,
    List.dropWhile_append]
  split
  · rename_i empty
    rw [List.isEmpty_iff.mp empty, dropWhile_blanks blanksAfter]
  · rw [List.reverse_append, List.dropWhile_append_of_pos reversed]

end Trim

section Pieces

variable {α : Type} [DecidableEq α] {separator : α}

theorem pieces_ne_nil (separator : α) (text : List α) : pieces separator text ≠ [] := by
  cases text with
  | nil => simp [pieces]
  | cons a rest =>
    rw [pieces]
    split
    · simp
    · split <;> simp

theorem intercalate_pieces (separator : α) (text : List α) :
    List.intercalate [separator] (pieces separator text) = text := by
  induction text with
  | nil => simp [pieces, List.intercalate]
  | cons a rest ih =>
    rw [pieces]
    cases parts : pieces separator rest with
    | nil => exact absurd parts (pieces_ne_nil separator rest)
    | cons first more =>
      rw [parts] at ih
      split
      · rename_i eq
        subst eq
        simpa [List.intercalate, List.intersperse] using ih
      · cases more with
        | nil => simpa [List.intercalate, List.intersperse] using ih
        | cons second more => simpa [List.intercalate, List.intersperse] using ih

theorem pieces_append (separator : α) (a b : List α) :
    pieces separator (a ++ separator :: b) = pieces separator a ++ pieces separator b := by
  induction a with
  | nil => simp [pieces]
  | cons c rest ih =>
    rw [List.cons_append, pieces, pieces, ih]
    split
    · rfl
    · cases parts : pieces separator rest with
      | nil => exact absurd parts (pieces_ne_nil separator rest)
      | cons first more => rfl

theorem pieces_of_not_mem {text : List α} (absent : separator ∉ text) :
    pieces separator text = [text] := by
  induction text with
  | nil => rfl
  | cons c rest ih =>
    rw [List.mem_cons, not_or] at absent
    rw [pieces, if_neg (Ne.symm absent.1), ih absent.2]

theorem not_mem_of_mem_pieces {text piece : List α} (mem : piece ∈ pieces separator text) :
    separator ∉ piece := by
  induction text generalizing piece with
  | nil =>
    rw [pieces, List.mem_singleton] at mem
    simp [mem]
  | cons c rest ih =>
    rw [pieces] at mem
    split at mem
    · rcases List.mem_cons.mp mem with rfl | later
      · exact List.not_mem_nil
      · exact ih later
    · rename_i different
      split at mem
      · rename_i parts
        exact absurd parts (pieces_ne_nil separator rest)
      · rename_i first more parts
        rw [parts] at ih
        rcases List.mem_cons.mp mem with rfl | later
        · rw [List.mem_cons, not_or]
          exact ⟨Ne.symm different, ih List.mem_cons_self⟩
        · exact ih (List.mem_cons_of_mem _ later)

theorem pieces_intercalate {parts : List (List α)} (nonempty : parts ≠ [])
    (apart : ∀ part ∈ parts, separator ∉ part) :
    pieces separator ([separator].intercalate parts) = parts := by
  induction parts with
  | nil => exact absurd rfl nonempty
  | cons part rest ih =>
    rw [List.forall_mem_cons] at apart
    cases rest with
    | nil => simpa [List.intercalate] using pieces_of_not_mem apart.1
    | cons next more =>
      rw [List.intercalate_cons_cons, List.append_assoc, List.singleton_append, pieces_append,
        pieces_of_not_mem apart.1, ih (by simp) apart.2, List.singleton_append]

end Pieces

end ContractTwins.Text
