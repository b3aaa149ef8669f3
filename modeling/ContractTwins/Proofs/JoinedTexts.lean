import ContractTwins.Proofs.StreamLines
import Mathlib.Logic.Relation

/-!
Corpus texts line by line. A text is read up to its first bad line, and blank lines count where that
line is numbered. Changes in the layout are one step at a time, and any number of them in a row.
-/
namespace ContractTwins

namespace CorpusError

def lower (lines : Nat) : CorpusError → CorpusError
  | .unreadable origin error => .unreadable origin error
  | .badEntry origin line text fault => .badEntry origin (line + lines) text fault

end CorpusError

namespace Text

def AtLineEnd (rest : List Char) : Prop := rest = [] ∨ ∃ ending ∈ lineEnds, ending <+: rest

inductive Relaid : List Char → List Char → Prop where
  | returned (before after : List Char) :
      Relaid (before ++ '\n' :: after) (before ++ '\r' :: '\n' :: after)
  | padded (before : List Char) {padding after : List Char} (white : Padding padding)
      (atEnd : AtLineEnd after) : Relaid (before ++ after) (before ++ padding ++ after)

def trimmedLines (text : List Char) : List (List Char) := (pieces '\n' text).map trim

section Lines

variable {α : Type} [DecidableEq α] {separator : α}

theorem length_pieces (separator : α) (text : List α) :
    (pieces separator text).length = text.count separator + 1 := by
  induction text with
  | nil => rfl
  | cons a rest ih =>
    rw [pieces]
    by_cases same : a = separator
    · rw [if_pos same, List.length_cons, ih, same, List.count_cons_self]
    · rw [if_neg same, List.count_cons_of_ne same, ← ih]
      obtain ⟨first, more, cut⟩ := List.exists_cons_of_ne_nil (pieces_ne_nil separator rest)
      rw [cut]
      rfl

theorem pieces_append_last (text : List α) {added : List α} (absent : separator ∉ added) :
    ∃ before last, pieces separator text = before ++ [last] ∧
      pieces separator (text ++ added) = before ++ [last ++ added] := by
  induction text with
  | nil => exact ⟨[], [], rfl, pieces_of_not_mem absent⟩
  | cons a rest ih =>
    obtain ⟨before, last, cut, cutAdded⟩ := ih
    rw [List.cons_append, pieces, pieces, cut, cutAdded]
    split
    · exact ⟨[] :: before, last, rfl, rfl⟩
    · cases before with
      | nil => exact ⟨[], a :: last, rfl, rfl⟩
      | cons first more => exact ⟨(a :: first) :: more, last, rfl, rfl⟩

theorem trimmedLines_joined (a b : List Char) :
    trimmedLines (a ++ '\n' :: b) = trimmedLines a ++ trimmedLines b := by
  rw [trimmedLines, pieces_append, List.map_append]
  rfl

theorem trimmedLines_padded (text : List Char) {padding : List Char} (white : Padding padding) :
    trimmedLines (text ++ padding) = trimmedLines text := by
  obtain ⟨before, last, cut, cutPadded⟩ :=
    pieces_append_last text (newline_not_mem_padding white)
  have nothing : Blanks [] := by simp [Blanks]
  have trimmed : trim (last ++ padding) = trim last :=
    trim_surrounded last nothing (blanks_of_padding white)
  simp only [trimmedLines, cut, cutPadded, List.map_append, List.map_singleton, trimmed]

end Lines

theorem trimmedLines_atLineEnd (before : List Char) {padding after : List Char}
    (white : Padding padding) (atEnd : AtLineEnd after) :
    trimmedLines (before ++ padding ++ after) = trimmedLines (before ++ after) := by
  rcases atEnd with rfl | ⟨ending, ends, rest, rfl⟩
  · rw [List.append_nil, List.append_nil, trimmedLines_padded before white]
  · obtain ⟨extra, rfl, whiteExtra⟩ := padding_of_lineEnd ends
    have split : ∀ line, line ++ (extra ++ ['\n'] ++ rest) = (line ++ extra) ++ '\n' :: rest := by
      simp
    rw [split, split, trimmedLines_joined, trimmedLines_joined, trimmedLines_padded _ whiteExtra,
      trimmedLines_padded _ whiteExtra, trimmedLines_padded before white]

theorem trimmedLines_relaid {a b : List Char} (relaid : Relaid a b) :
    trimmedLines b = trimmedLines a := by
  cases relaid with
  | returned before after =>
    have white : Padding ['\r'] := by simp [Padding, isBlank]
    have atEnd : AtLineEnd ('\n' :: after) := .inr ⟨['\n'], by decide, after, rfl⟩
    have same := trimmedLines_atLineEnd before white atEnd
    rwa [List.append_assoc] at same
  | padded before white atEnd => exact trimmedLines_atLineEnd before white atEnd

theorem trimmedLines_of_relaid {a b : List Char} (relaid : Relation.ReflTransGen Relaid a b) :
    trimmedLines b = trimmedLines a := by
  induction relaid with
  | refl => rfl
  | tail _ step ih => rw [trimmedLines_relaid step, ih]

end Text

open Text

namespace Entry

/-- The line of this number is no entry, and all lines before it can be read. -/
def FirstBadLine (text : String) (number : Nat) (trimmed : String) (fault : Json.Fault) : Prop :=
  ∃ before line after, pieces '\n' text.toList = before ++ line :: after ∧
    number = before.length + 1 ∧ (∀ line ∈ before, Readable line) ∧ BadLine line trimmed fault

section Lines

variable {origin : String} {number : Nat}

theorem ofLines_append (xs ys : List (Except ReadError (List Char))) :
    ofLines origin number (xs ++ ys) = (do
      let first ← ofLines origin number xs
      let second ← ofLines origin (number + xs.length) ys
      pure (first ++ second)) := by
  induction xs generalizing number with
  | nil => exact (bind_pure (ofLines origin number ys)).symm
  | cons line rest ih =>
    cases line with
    | error error => rfl
    | ok text =>
      rw [List.cons_append, ofLines, ofLines, ih, List.length_cons, Nat.add_right_comm number 1]
      simp only [bind_assoc, pure_bind, List.append_assoc, Nat.add_assoc]

theorem ofLines_of_trimmed {xs ys : List (List Char)} (same : xs.map trim = ys.map trim) :
    ofLines origin number (xs.map .ok) = ofLines origin number (ys.map .ok) := by
  induction xs generalizing number ys with
  | nil =>
    rw [List.map_nil, eq_comm, List.map_eq_nil_iff] at same
    rw [same]
  | cons line rest ih =>
    cases ys with
    | nil => cases same
    | cons other more =>
      obtain ⟨first, later⟩ := List.cons.inj same
      rw [List.map_cons, List.map_cons, ofLines, ofLines, ofLine_congr first, ih later]

theorem succeeds_ofLines {lines : List (List Char)} (readable : ∀ line ∈ lines, Readable line) :
    Outcome.Succeeds (ofLines origin number (lines.map .ok)) := by
  induction lines generalizing number with
  | nil => exact ⟨[], rfl⟩
  | cons line rest ih =>
    rw [List.forall_mem_cons] at readable
    obtain ⟨entry, read⟩ := ofLine_sound readable.1 origin number
    rw [List.map_cons, ofLines, Outcome.succeeds_pair_iff]
    exact ⟨⟨entry, read⟩, ih readable.2⟩

theorem ofLines_first_bad {before : List (List Char)} (readable : ∀ line ∈ before, Readable line)
    {line : List Char} {trimmed : String} {fault : Json.Fault} (bad : BadLine line trimmed fault)
    (after : List (List Char)) :
    ofLines origin number ((before ++ line :: after).map .ok) =
      .error (.badEntry origin (number + before.length) trimmed fault) := by
  obtain ⟨same, nonempty, read⟩ := bad
  have texts : ∀ line ∈ before.map (Except.ok (ε := ReadError)),
      ∃ text, line = .ok text ∧ Readable text := by
    intro line mem
    obtain ⟨text, memText, rfl⟩ := List.mem_map.mp mem
    exact ⟨text, rfl, readable text memText⟩
  rw [List.map_append, ofLines_after texts, List.length_map, List.map_cons, ofLines,
    ofLine_bad same nonempty read]
  rfl

end Lines

/-- A text fails by its first bad line, and by nothing else. -/
theorem ofText_eq_error_iff {origin text : String} {error : CorpusError} :
    ofText origin text = .error error ↔
      ∃ number trimmed fault, FirstBadLine text number trimmed fault ∧
        error = .badEntry origin number trimmed fault := by
  constructor
  · intro fails
    rcases Outcome.all_or_first Readable (pieces '\n' text.toList) with
      all | ⟨before, line, after, cut, each, unread⟩
    · obtain ⟨entries, read⟩ : Outcome.Succeeds (ofText origin text) := succeeds_ofLines all
      rw [read] at fails
      cases fails
    · obtain ⟨trimmed, fault, bad⟩ := (readable_or_badLine line).resolve_left unread
      rw [ofText, cut, ofLines_first_bad each bad, Nat.add_comm] at fails
      cases fails
      exact ⟨_, trimmed, fault, ⟨before, line, after, cut, rfl, each, bad⟩, rfl⟩
  · rintro ⟨_, trimmed, fault, ⟨before, line, after, cut, rfl, each, bad⟩, rfl⟩
    rw [ofText, cut, ofLines_first_bad each bad, Nat.add_comm]

theorem ofText_joined (origin a b : String) :
    ofText origin (a ++ "\n" ++ b) = (do
      let first ← ofText origin a
      let second ← (ofText origin b).mapError (.lower (1 + a.toList.count '\n'))
      pure (first ++ second)) := by
  have lines : (a ++ "\n" ++ b).toList = a.toList ++ '\n' :: b.toList := by simp
  have moved : ofLines origin (1 + (1 + a.toList.count '\n')) ((pieces '\n' b.toList).map .ok) =
      (ofText origin b).mapError (.lower (1 + a.toList.count '\n')) :=
    ofLines_relabelled (fun _ => rfl) (fun _ _ _ => rfl) 1 _
  rw [ofText, ofText, lines, pieces_append, List.map_append, ofLines_append, List.length_map,
    length_pieces, Nat.add_comm (List.count _ _), moved]

theorem ofText_of_relaid (origin : String) {a b : String}
    (relaid : Relation.ReflTransGen Relaid a.toList b.toList) : ofText origin b = ofText origin a :=
  ofLines_of_trimmed (trimmedLines_of_relaid relaid)

/-- What two texts, joined by a line feed, have to do with the texts by themselves. -/
structure ReadsJoined (origin a b : String) : Prop where
  entries : ∀ entries, ofText origin (a ++ "\n" ++ b) = .ok entries ↔
    ∃ first second, ofText origin a = .ok first ∧ ofText origin b = .ok second ∧
      entries = first ++ second
  first : ∀ error, ofText origin a = .error error →
    ofText origin (a ++ "\n" ++ b) = .error error
  /-- An error of the second text alone is reported as many lines further down as the first has. -/
  second : ∀ entries number trimmed fault, ofText origin a = .ok entries →
    ofText origin b = .error (.badEntry origin number trimmed fault) →
      ofText origin (a ++ "\n" ++ b) =
        .error (.badEntry origin (number + (1 + a.toList.count '\n')) trimmed fault)
  numbered : ∀ error, ofText origin a = .error error ↔
    ∃ number trimmed fault, FirstBadLine a number trimmed fault ∧
      error = .badEntry origin number trimmed fault

/-- Corpus texts are read line by line: two texts joined by a line feed give what they give by
themselves, and what is changed in the layout of a text changes neither its
entries nor its error. -/
theorem reads_line_by_line (origin a b : String) :
    ReadsJoined origin a b ∧
      ∀ other : String, Relation.ReflTransGen Relaid a.toList other.toList →
        ofText origin other = ofText origin a := by
  refine ⟨⟨?_, ?_, ?_, fun _ => ofText_eq_error_iff⟩, fun _ => ofText_of_relaid origin⟩
  · intro entries
    rw [ofText_joined]
    simp only [Outcome.bind_eq_ok_iff, Outcome.pure_eq_ok_iff, Outcome.mapError_eq_ok_iff]
    constructor
    · rintro ⟨first, readFirst, second, readSecond, same⟩
      exact ⟨first, second, readFirst, readSecond, same.symm⟩
    · rintro ⟨first, second, readFirst, readSecond, same⟩
      exact ⟨first, readFirst, second, readSecond, same.symm⟩
  · intro error fails
    rw [ofText_joined, fails]
    rfl
  · intro entries number trimmed fault read fails
    rw [ofText_joined, read, fails]
    rfl

theorem reads_line_by_line_plain :
    ofText "purses" (plainEntry.toJson.render ++ "\t") = .ok [plainEntry] ∧
      ∃ fault, ofText "purses" "\r\nx" = .error (.badEntry "purses" 2 "x" fault) ∧
        ofText "purses" (plainEntry.toJson.render ++ "\n" ++ "\r\nx") =
          .error (.badEntry "purses" 3 "x" fault) := by
  have absent : '\n' ∉ plainEntry.toJson.render.toList := newline_not_mem_render _
  have plain : ofText "purses" plainEntry.toJson.render = .ok [plainEntry] := by
    rw [ofText, pieces_of_not_mem absent, List.map_singleton, ofLines, ofLine_render]
    rfl
  obtain ⟨joined, laidOut⟩ := reads_line_by_line "purses" plainEntry.toJson.render "\r\nx"
  constructor
  · rw [laidOut, plain]
    have white : Padding ['\t'] := by simp [Padding, isBlank]
    have padded := Relaid.padded plainEntry.toJson.render.toList white (.inl rfl)
    rw [List.append_nil, List.append_nil] at padded
    rw [String.toList_append]
    exact .single padded
  · cases read : form.read "x" with
    | ok entry => cases read
    | error fault =>
      have failed : ofText "purses" "\r\nx" = .error (.badEntry "purses" 2 "x" fault) := by
        refine ofText_eq_error_iff.mpr ⟨2, "x", fault, ?_, rfl⟩
        exact ⟨[['\r']], ['x'], [], by decide, rfl, by simp [Readable, trim, isBlank],
          by decide, by decide, read⟩
      have below := joined.second _ 2 "x" fault plain failed
      rw [List.count_eq_zero.mpr absent] at below
      exact ⟨fault, failed, below⟩

end Entry

end ContractTwins
