import ContractTwins.Corpus.Load
import ContractTwins.Proofs.WrittenForms

namespace ContractTwins

namespace Text

theorem trim_of_ends {a b : Char} (middle : List Char) (first : isBlank a = false)
    (last : isBlank b = false) : trim (a :: (middle ++ [b])) = a :: (middle ++ [b]) := by
  rw [trim, List.dropWhile_cons_of_neg (by simp [first]), ← List.cons_append,
    List.reverse_append, List.reverse_singleton, List.singleton_append,
    List.dropWhile_cons_of_neg (by simp [last]), List.reverse_cons, List.reverse_reverse]

end Text

namespace Json

def Visible (text : List Char) : Prop := ∀ c ∈ text, 0x20 ≤ c.toNat

theorem visible_append {a b : List Char} (visibleA : Visible a) (visibleB : Visible b) :
    Visible (a ++ b) := by
  intro c mem
  rcases List.mem_append.mp mem with mem | mem
  · exact visibleA c mem
  · exact visibleB c mem

theorem visible_cons {c : Char} {text : List Char} (first : 0x20 ≤ c.toNat) (later : Visible text) :
    Visible (c :: text) := List.forall_mem_cons.mpr ⟨first, later⟩

theorem visible_nil : Visible [] := by simp [Visible]

theorem visible_hexDigit : ∀ n < 16, 0x20 ≤ (hexDigit n).toNat := by decide

theorem visible_escape (c : Char) : Visible (escape c) := by
  have named : ∀ letter ∈ ['"', '\\', 'b', 't', 'n', 'f', 'r'], Visible ['\\', letter] := by
    simp [Visible]
  unfold escape
  -- Seven characters have a letter of their own.
  iterate 7
    split
    · exact named _ (by decide)
  split
  · rename_i low
    have start : Visible ['\\', 'u', '0', '0'] := by simp [Visible]
    refine visible_append start (visible_cons (visible_hexDigit _ (by omega)) ?_)
    exact visible_cons (visible_hexDigit _ (by omega)) visible_nil
  · rename_i high
    exact visible_cons (Nat.le_of_not_lt high) visible_nil

theorem visible_quoted (text : String) : Visible (quoted text) := by
  refine visible_cons (by decide) (visible_append ?_ (visible_cons (by decide) visible_nil))
  intro c mem
  obtain ⟨original, -, escaped⟩ := List.mem_flatMap.mp mem
  exact visible_escape original c escaped

theorem visible_numberText (value : Number) : Visible (numberText value) := by
  intro c mem
  have char := numberText_chars value c mem
  simp only [Double.isNumberChar, Char.isDigit, Bool.or_eq_true, Bool.and_eq_true, beq_iff_eq,
    decide_eq_true_eq] at char
  rcases char with (((digit | rfl) | rfl) | rfl) | rfl
  · exact Nat.le_trans (by decide) digit.1
  all_goals decide

mutual

theorem visible_compact : (json : Json) → Visible (compact json)
  | .null => by simp [compact, Visible]
  | .bool value => by cases value <;> simp [compact, boolText, Visible]
  | .number value => visible_numberText value
  | .text value => visible_quoted value
  | .list items => visible_cons (by decide)
      (visible_append (visible_compactItems items) (visible_cons (by decide) visible_nil))
  | .object members => visible_cons (by decide)
      (visible_append (visible_compactMembers members) (visible_cons (by decide) visible_nil))

theorem visible_compactItems : (items : List Json) → Visible (compactItems items)
  | [] => visible_nil
  | [item] => visible_compact item
  | item :: next :: rest => visible_append (visible_compact item)
      (visible_cons (by decide) (visible_compactItems (next :: rest)))

theorem visible_compactMembers : (members : List (String × Json)) →
    Visible (compactMembers members)
  | [] => visible_nil
  | [(key, value)] => visible_append (visible_quoted key)
      (visible_cons (by decide) (visible_compact value))
  | (key, value) :: next :: rest => visible_append (visible_quoted key)
      (visible_cons (by decide) (visible_append (visible_compact value)
        (visible_cons (by decide) (visible_compactMembers (next :: rest)))))

end

end Json

open Json

theorem EntryOptions.spells_toJson (options : EntryOptions) :
    form.Spells options.toJson options :=
  Form.record_spells
    (Form.fills_slot rfl List.not_mem_nil (Form.string_spells _)
      (Form.fills_slot rfl (by decide) (Form.string_spells _) (.nil _))) rfl

namespace Entry

theorem spells_toJson (entry : Entry) : form.Spells entry.toJson entry := by
  obtain ⟨hash, name, path, options⟩ := entry
  cases path with
  | none =>
    exact Form.record_spells
      (Form.fills_slot rfl List.not_mem_nil (Form.string_spells _)
        (Form.fills_slot rfl (by decide) (Form.string_spells _)
          (Form.fills_slot rfl (by decide) options.spells_toJson (.nil _)))) rfl
  | some path =>
    exact Form.record_spells
      (Form.fills_slot rfl List.not_mem_nil (Form.string_spells _)
        (Form.fills_slot rfl (by decide) (Form.string_spells _)
          (Form.fills_slot rfl (by decide)
            (Form.optional_spells Json.noConfusion (Form.string_spells _))
            (Form.fills_slot rfl (by decide) options.spells_toJson (.nil _))))) rfl

theorem trim_render (entry : Entry) :
    Text.trim entry.toJson.render.toList = entry.toJson.render.toList := by
  rw [render, String.toList_ofList]
  exact Text.trim_of_ends _ rfl rfl

theorem newline_not_mem_render (json : Json) : '\n' ∉ json.render.toList := by
  intro mem
  rw [render, String.toList_ofList] at mem
  exact absurd (visible_compact json _ mem) (by decide)

theorem ofLine_render (origin : String) (number : Nat) (entry : Entry) :
    ofLine origin number entry.toJson.render.toList = .ok (some entry) := by
  have read := Form.read_render entry.spells_toJson
  unfold ofLine
  rw [trim_render]
  split
  · rename_i blank
    rw [render, String.toList_ofList] at blank
    cases blank
  · rw [String.ofList_toList]
    simp only [read]

end Entry

end ContractTwins
