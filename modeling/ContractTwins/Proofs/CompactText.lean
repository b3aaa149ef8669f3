import ContractTwins.Json.Printer
import ContractTwins.Json.Quoted
import ContractTwins.Proofs.ShortestText

namespace ContractTwins.Json

open Double

theorem integerText_chars (n : Int) : ∀ c ∈ integerText n, c.isDigit ∨ c = '-' := by
  intro c mem
  rw [integerText] at mem
  rcases List.mem_append.mp mem with mem | mem
  · split at mem
    · exact Or.inr (List.mem_singleton.mp mem)
    · cases mem
  · exact Or.inl (allDigits_toDigits _ c mem)

theorem toDigits_ne_sign {n : Nat} {rest : List Char} : Nat.toDigits 10 n ≠ '-' :: rest := by
  intro same
  have digit := allDigits_toDigits n '-' (by rw [same]; exact List.mem_cons_self)
  cases digit

theorem toDigits_injective {m n : Nat} (same : Nat.toDigits 10 m = Nat.toDigits 10 n) : m = n := by
  have read := congrArg (fun digits => Nat.ofDigitChars 10 digits 0) same
  simpa using read

theorem integerText_injective {m n : Int} (same : integerText m = integerText n) : m = n := by
  rw [integerText, integerText] at same
  split at same <;> split at same
  · have := toDigits_injective (List.cons.inj same).2
    omega
  · exact absurd same.symm toDigits_ne_sign
  · exact absurd same toDigits_ne_sign
  · have := toDigits_injective same
    omega

theorem text_marked (x : Double) : '.' ∈ x.text ∨ 'e' ∈ x.text :=
  (spells_magnitudeText x.step).marked.imp (List.mem_append_right _) (List.mem_append_right _)

theorem integerText_ne_text {n : Int} {x : Double} : integerText n ≠ x.text := by
  intro same
  have chars := integerText_chars n
  rw [same] at chars
  rcases text_marked x with mem | mem
  · rcases chars _ mem with digit | sign
    · cases digit
    · cases sign
  · rcases chars _ mem with digit | sign
    · cases digit
    · cases sign

theorem numberText_injective {m n : Number} (same : numberText m = numberText n) : m = n := by
  cases m with
  | integer m =>
    cases n with
    | integer n => rw [integerText_injective same]
    | float y => exact absurd same integerText_ne_text
  | float x =>
    cases n with
    | integer n => exact absurd same.symm integerText_ne_text
    | float y => rw [text_injective same]

theorem numberText_chars (n : Number) : ∀ c ∈ numberText n, isNumberChar c := by
  intro c mem
  cases n with
  | integer n =>
    rcases integerText_chars n c mem with digit | rfl
    · exact isNumberChar_of_isDigit digit
    · rfl
  | float x =>
    rcases List.mem_append.mp mem with mem | mem
    · split at mem
      · rw [List.mem_singleton.mp mem]
        rfl
      · cases mem
    · exact (spells_magnitudeText x.step).chars c mem

theorem numberText_begins (n : Number) :
    ∃ c rest, numberText n = c :: rest ∧ (c.isDigit ∨ c = '-') := by
  cases n with
  | integer n =>
    rw [numberText]
    cases text : integerText n with
    | nil =>
      rw [integerText, List.append_eq_nil_iff] at text
      exact absurd text.2 Nat.toDigits_ne_nil
    | cons c rest => exact ⟨c, rest, rfl, integerText_chars n c (by rw [text]; exact List.mem_cons_self)⟩
  | float x =>
    obtain ⟨digit, rest, eq, isDigit⟩ := (spells_magnitudeText x.step).first
    obtain ⟨negative, step⟩ := x
    rw [numberText]
    cases negative with
    | false => exact ⟨digit, rest, (text_positive step).trans eq, Or.inl isDigit⟩
    | true => exact ⟨'-', _, text_negative step, Or.inr rfl⟩

def EndsNumber (rest : List Char) : Prop :=
  ∀ c later, rest = c :: later → isNumberChar c = false

theorem endsNumber_cons {c : Char} {later : List Char} (other : isNumberChar c = false) :
    EndsNumber (c :: later) := by
  intro _ _ same
  cases same
  exact other

theorem numberText_append {m n : Number} {r s : List Char} (endsR : EndsNumber r)
    (endsS : EndsNumber s) (same : numberText m ++ r = numberText n ++ s) : m = n ∧ r = s := by
  have taken : ∀ {n : Number} {rest : List Char}, EndsNumber rest →
      (numberText n ++ rest).takeWhile isNumberChar = numberText n := by
    intro n rest ends
    rw [List.takeWhile_append_of_pos (numberText_chars n)]
    cases rest with
    | nil => rw [List.takeWhile_nil, List.append_nil]
    | cons c later =>
      rw [List.takeWhile_cons_of_neg (by simp [ends c later rfl]), List.append_nil]
  have texts : numberText m = numberText n := by
    rw [← taken endsR, same, taken endsS]
  rw [texts] at same
  exact ⟨numberText_injective texts, List.append_cancel_left same⟩

theorem reads_unique {α : Type} {scan : Scanner α} {text r s : List Char} {a b : α}
    (readA : Reads scan text a r) (readB : Reads scan text b s) : a = b ∧ r = s := by
  obtain ⟨_, eqA⟩ := readA
  obtain ⟨_, eqB⟩ := readB
  have same := Except.ok.inj (eqA.symm.trans eqB)
  cases same
  exact ⟨rfl, rfl⟩

theorem quoted_append {a b : String} {r s : List Char} (same : quoted a ++ r = quoted b ++ s) :
    a = b ∧ r = s := by
  have bodies : a.toList.flatMap escape ++ '"' :: r = b.toList.flatMap escape ++ '"' :: s := by
    simpa [quoted] using same
  have readA := reads_quotedChars a.toList r
  rw [bodies] at readA
  obtain ⟨chars, rests⟩ := reads_unique readA (reads_quotedChars b.toList s)
  exact ⟨String.toList_inj.mp chars, rests⟩

def beginning (c : Char) : Option Nat :=
  if c = 'n' then some 0
  else if c = 't' ∨ c = 'f' then some 1
  else if c.isDigit ∨ c = '-' then some 2
  else if c = '"' then some 3
  else if c = '[' then some 4
  else if c = '\x7b' then some 5
  else none

def constructorIndex : Json → Nat
  | .null => 0
  | .bool _ => 1
  | .number _ => 2
  | .text _ => 3
  | .list _ => 4
  | .object _ => 5

theorem compact_begins (json : Json) :
    ∃ c rest, compact json = c :: rest ∧ beginning c = some (constructorIndex json) := by
  cases json with
  | null => exact ⟨'n', _, rfl, rfl⟩
  | bool value => cases value <;> exact ⟨_, _, rfl, rfl⟩
  | number value =>
    obtain ⟨c, rest, eq, begins⟩ := numberText_begins value
    refine ⟨c, rest, eq, ?_⟩
    have noLetter : c ≠ 'n' ∧ c ≠ 't' ∧ c ≠ 'f' := by
      refine ⟨?_, ?_, ?_⟩ <;> (rintro rfl; revert begins; decide)
    simp [beginning, constructorIndex, noLetter, begins]
  | text value => exact ⟨'"', _, rfl, rfl⟩
  | list items => exact ⟨'[', _, rfl, rfl⟩
  | object members => exact ⟨'\x7b', _, rfl, rfl⟩

theorem constructorIndex_eq {a b : Json} {r s : List Char}
    (same : compact a ++ r = compact b ++ s) : constructorIndex a = constructorIndex b := by
  obtain ⟨c, _, eqA, indexA⟩ := compact_begins a
  obtain ⟨d, _, eqB, indexB⟩ := compact_begins b
  rw [eqA, eqB] at same
  rw [(List.cons.inj same).1, indexB] at indexA
  exact (Option.some.inj indexA).symm

theorem compact_ne_cons {json : Json} {r s : List Char} {c : Char} (none : beginning c = none) :
    compact json ++ r ≠ c :: s := by
  intro same
  obtain ⟨d, _, eq, index⟩ := compact_begins json
  rw [eq] at same
  rw [(List.cons.inj same).1, none] at index
  cases index

def itemsTail : List Json → List Char
  | [] => []
  | rest => ',' :: compactItems rest

theorem compactItems_cons (item : Json) (rest : List Json) :
    compactItems (item :: rest) = compact item ++ itemsTail rest := by
  cases rest with
  | nil => rw [compactItems, itemsTail, List.append_nil]
  | cons next more => rw [compactItems, itemsTail] <;> simp

def membersTail : List (String × Json) → List Char
  | [] => []
  | rest => ',' :: compactMembers rest

theorem compactMembers_cons (key : String) (value : Json) (rest : List (String × Json)) :
    compactMembers ((key, value) :: rest) =
      quoted key ++ ':' :: (compact value ++ membersTail rest) := by
  cases rest with
  | nil => rw [compactMembers, membersTail, List.append_nil]
  | cons next more => rw [compactMembers, membersTail] <;> simp

theorem compactItems_of_tail {as bs : List Json} {r s : List Char}
    (same : itemsTail as ++ ']' :: r = itemsTail bs ++ ']' :: s) :
    compactItems as ++ ']' :: r = compactItems bs ++ ']' :: s := by
  cases as with
  | nil =>
    cases bs with
    | nil => exact same
    | cons b bs => cases (List.cons.inj same).1
  | cons a as =>
    cases bs with
    | nil => cases (List.cons.inj same).1
    | cons b bs => exact (List.cons.inj same).2

theorem compactMembers_of_tail {as bs : List (String × Json)} {r s : List Char}
    (same : membersTail as ++ '\x7d' :: r = membersTail bs ++ '\x7d' :: s) :
    compactMembers as ++ '\x7d' :: r = compactMembers bs ++ '\x7d' :: s := by
  cases as with
  | nil =>
    cases bs with
    | nil => exact same
    | cons b bs => cases (List.cons.inj same).1
  | cons a as =>
    cases bs with
    | nil => cases (List.cons.inj same).1
    | cons b bs => exact (List.cons.inj same).2

theorem endsNumber_itemsTail (rest : List Json) (r : List Char) :
    EndsNumber (itemsTail rest ++ ']' :: r) := by
  cases rest <;> exact endsNumber_cons rfl

theorem endsNumber_membersTail (rest : List (String × Json)) (r : List Char) :
    EndsNumber (membersTail rest ++ '\x7d' :: r) := by
  cases rest <;> exact endsNumber_cons rfl

mutual

/-- Of two values whose texts are continued to one text, both are the same and both rests are. -/
theorem compact_append : (a : Json) → {b : Json} → {r s : List Char} → EndsNumber r →
    EndsNumber s → compact a ++ r = compact b ++ s → a = b ∧ r = s
  | .null, b, r, s, _, _, same => by
    have index := constructorIndex_eq same
    cases b <;> cases index
    exact ⟨rfl, List.append_cancel_left same⟩
  | .bool value, b, r, s, _, _, same => by
    have index := constructorIndex_eq same
    cases b <;> cases index
    rename_i other
    cases value <;> cases other <;> simp_all [compact, boolText]
  | .number value, b, r, s, endsR, endsS, same => by
    have index := constructorIndex_eq same
    cases b <;> cases index
    rw [compact, compact] at same
    obtain ⟨rfl, rests⟩ := numberText_append endsR endsS same
    exact ⟨rfl, rests⟩
  | .text value, b, r, s, _, _, same => by
    have index := constructorIndex_eq same
    cases b <;> cases index
    rw [compact, compact] at same
    obtain ⟨rfl, rests⟩ := quoted_append same
    exact ⟨rfl, rests⟩
  | .list items, b, r, s, _, _, same => by
    have index := constructorIndex_eq same
    cases b <;> cases index
    rw [compact, compact, List.cons_append, List.cons_append, List.append_assoc,
      List.append_assoc] at same
    obtain ⟨rfl, rests⟩ := compactItems_append items (List.cons.inj same).2
    exact ⟨rfl, rests⟩
  | .object members, b, r, s, _, _, same => by
    have index := constructorIndex_eq same
    cases b <;> cases index
    rw [compact, compact, List.cons_append, List.cons_append, List.append_assoc,
      List.append_assoc] at same
    obtain ⟨rfl, rests⟩ := compactMembers_append members (List.cons.inj same).2
    exact ⟨rfl, rests⟩

theorem compactItems_append : (as : List Json) → {bs : List Json} → {r s : List Char} →
    compactItems as ++ ']' :: r = compactItems bs ++ ']' :: s → as = bs ∧ r = s
  | [], [], _, _, same => ⟨rfl, (List.cons.inj same).2⟩
  | [], b :: bs, _, _, same => by
    rw [compactItems_cons, List.append_assoc] at same
    exact absurd same.symm (compact_ne_cons rfl)
  | a :: as, [], _, _, same => by
    rw [compactItems_cons, List.append_assoc] at same
    exact absurd same (compact_ne_cons rfl)
  | a :: as, b :: bs, r, s, same => by
    rw [compactItems_cons, compactItems_cons, List.append_assoc, List.append_assoc] at same
    obtain ⟨rfl, tails⟩ := compact_append a (endsNumber_itemsTail as r)
      (endsNumber_itemsTail bs s) same
    obtain ⟨rfl, rests⟩ := compactItems_append as (compactItems_of_tail tails)
    exact ⟨rfl, rests⟩

theorem compactMembers_append : (as : List (String × Json)) → {bs : List (String × Json)} →
    {r s : List Char} →
    compactMembers as ++ '\x7d' :: r = compactMembers bs ++ '\x7d' :: s → as = bs ∧ r = s
  | [], [], _, _, same => ⟨rfl, (List.cons.inj same).2⟩
  | [], (key, b) :: bs, _, _, same => by
    rw [compactMembers_cons] at same
    cases (List.cons.inj same).1
  | (key, a) :: as, [], _, _, same => by
    rw [compactMembers_cons] at same
    cases (List.cons.inj same).1
  | (key, a) :: as, (other, b) :: bs, r, s, same => by
    rw [compactMembers_cons, compactMembers_cons, List.append_assoc, List.append_assoc] at same
    obtain ⟨rfl, values⟩ := quoted_append same
    rw [List.cons_append, List.cons_append, List.append_assoc, List.append_assoc] at values
    obtain ⟨rfl, tails⟩ := compact_append a (endsNumber_membersTail as r)
      (endsNumber_membersTail bs s) (List.cons.inj values).2
    obtain ⟨rfl, rests⟩ := compactMembers_append as (compactMembers_of_tail tails)
    exact ⟨rfl, rests⟩

end

theorem endsNumber_nil : EndsNumber [] := fun _ _ same => by cases same

theorem render_injective {a b : Json} (same : a.render = b.render) : a = b := by
  have texts : compact a ++ [] = compact b ++ [] := by
    rw [List.append_nil, List.append_nil]
    exact String.ofList_injective same
  exact (compact_append a endsNumber_nil endsNumber_nil texts).1

end ContractTwins.Json
