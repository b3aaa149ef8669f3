import ContractTwins.Proofs.EntryLines

/-!
Layouts of a corpus text. Lines may be ended in two ways, blank lines may stand anywhere, and each
entry may have blanks around it. A layout is an inductive relation, so that nothing in it mentions
how lines are cut.
-/
namespace ContractTwins

namespace Text

/-- White space that stays on its line. -/
def Padding (text : List Char) : Prop := ∀ c ∈ text, isBlank c = true ∧ c ≠ '\n'

def lineEnds : List (List Char) := [['\n'], ['\r', '\n']]

theorem padding_append {a b : List Char} (paddingA : Padding a) (paddingB : Padding b) :
    Padding (a ++ b) := List.forall_mem_append.mpr ⟨paddingA, paddingB⟩

theorem newline_not_mem_padding {text : List Char} (padding : Padding text) : '\n' ∉ text :=
  fun mem => (padding _ mem).2 rfl

theorem padding_of_lineEnd {ending : List Char} (ends : ending ∈ lineEnds) :
    ∃ extra, ending = extra ++ ['\n'] ∧ Padding extra := by
  simp only [lineEnds, List.mem_cons, List.not_mem_nil, or_false] at ends
  rcases ends with rfl | rfl
  · exact ⟨[], rfl, by simp [Padding]⟩
  · exact ⟨['\r'], rfl, by simp [Padding, isBlank]⟩

theorem blanks_of_padding {text : List Char} (padding : Padding text) : Blanks text :=
  fun c mem => (padding c mem).1

theorem pieces_line {line ending : List Char} (absent : '\n' ∉ line) (ends : ending ∈ lineEnds) :
    ∃ extra, Padding extra ∧ ∀ text, pieces '\n' (line ++ ending ++ text) =
      (line ++ extra) :: pieces '\n' text := by
  obtain ⟨extra, rfl, padding⟩ := padding_of_lineEnd ends
  refine ⟨extra, padding, fun text => ?_⟩
  have whole : '\n' ∉ line ++ extra := by
    rw [List.mem_append, not_or]
    exact ⟨absent, newline_not_mem_padding padding⟩
  rw [← List.append_assoc, List.append_assoc, List.singleton_append, pieces_append,
    pieces_of_not_mem whole, List.singleton_append]

end Text

open Text

namespace Entry

theorem ofLine_congr {a b : List Char} (same : trim a = trim b) (origin : String) (number : Nat) :
    ofLine origin number a = ofLine origin number b := by
  rw [ofLine, ofLine, same]

theorem ofLine_padding {line : List Char} (padding : Padding line) (origin : String)
    (number : Nat) : ofLine origin number line = .ok none := by
  rw [ofLine, trim_blanks (blanks_of_padding padding)]

/-- The text writes the entries in this order, each on a line. -/
inductive LaidOut : List Entry → List Char → Prop where
  | blank {text : List Char} (padding : Padding text) : LaidOut [] text
  | blankLine {line ending text : List Char} {entries : List Entry} (padding : Padding line)
      (ends : ending ∈ lineEnds) (later : LaidOut entries text) :
      LaidOut entries (line ++ ending ++ text)
  | entryLine {before after ending text : List Char} {entries : List Entry} (entry : Entry)
      (paddingBefore : Padding before) (paddingAfter : Padding after) (ends : ending ∈ lineEnds)
      (later : LaidOut entries text) :
      LaidOut (entry :: entries)
        (before ++ entry.toJson.render.toList ++ after ++ ending ++ text)

theorem ofLines_of_laidOut (origin : String) {entries : List Entry} {text : List Char}
    (laidOut : LaidOut entries text) (number : Nat) :
    ofLines origin number ((pieces '\n' text).map .ok) = .ok entries := by
  induction laidOut generalizing number with
  | blank padding =>
    rw [pieces_of_not_mem (newline_not_mem_padding padding), List.map_singleton, ofLines,
      ofLine_padding padding]
    rfl
  | blankLine padding ends later ih =>
    obtain ⟨extra, paddingExtra, cut⟩ := pieces_line (newline_not_mem_padding padding) ends
    rw [cut, List.map_cons, ofLines, ofLine_padding (padding_append padding paddingExtra), ih]
    rfl
  | entryLine entry paddingBefore paddingAfter ends later ih =>
    rename_i before after ending text entries
    have absent : '\n' ∉ before ++ entry.toJson.render.toList ++ after := by
      simp only [List.mem_append, not_or]
      exact ⟨⟨newline_not_mem_padding paddingBefore, newline_not_mem_render _⟩,
        newline_not_mem_padding paddingAfter⟩
    obtain ⟨extra, paddingExtra, cut⟩ := pieces_line absent ends
    have trimmed : trim (before ++ entry.toJson.render.toList ++ after ++ extra) =
        trim entry.toJson.render.toList := by
      rw [List.append_assoc _ after, trim_surrounded _ (blanks_of_padding paddingBefore)
        (blanks_of_padding (padding_append paddingAfter paddingExtra))]
    rw [cut, List.map_cons, ofLines, ofLine_congr trimmed, ofLine_render, ih]
    rfl

/-- A text in any layout reads as the entries that it writes. -/
theorem ofText_of_laidOut (origin : String) {entries : List Entry} {text : String}
    (laidOut : LaidOut entries text.toList) : ofText origin text = .ok entries :=
  ofLines_of_laidOut origin laidOut 1

theorem laidOut_unlines (entries : List Entry) :
    LaidOut entries (unlines (entries.map fun entry => entry.toJson.render)).toList := by
  have nothing : Padding [] := by simp [Padding]
  induction entries with
  | nil => exact .blank nothing
  | cons entry rest ih =>
    have lines : (unlines ((entry :: rest).map fun entry => entry.toJson.render)).toList =
        [] ++ entry.toJson.render.toList ++ [] ++ ['\n'] ++
          (unlines (rest.map fun entry => entry.toJson.render)).toList := by
      simp [unlines, String.toList_join]
    rw [lines]
    exact .entryLine entry nothing nothing (by decide) ih

def stored (entries : List Entry) : List UInt8 :=
  bytes (unlines (entries.map fun entry => entry.toJson.render))

theorem ofFile_stored {files : Files} {path : Path} {entries : List Entry}
    (held : files.read path = .ok (stored entries)) : ofFile files path = .ok entries := by
  simp only [ofFile, held, stored, ofBytes?_bytes]
  exact ofLines_of_laidOut path.text (laidOut_unlines entries) 1

def oddEntry : Entry := ⟨"9f\"", "Pur\\se\r\n\x00", none, ⟨"md5", "Größe"⟩⟩

def plainEntry : Entry := ⟨"9f", "Purse", some "purse.sol", ⟨"sha256", "AST_EXACT"⟩⟩

def oddText : List Char :=
  ['\u2028', '\t'] ++ ['\r', '\n'] ++
    (['\u00a0'] ++ oddEntry.toJson.render.toList ++ [' ', '\x0b'] ++ ['\r', '\n'] ++
      ([] ++ plainEntry.toJson.render.toList ++ [] ++ ['\n'] ++ ['\r']))

theorem laidOut_oddText : LaidOut [oddEntry, plainEntry] oddText := by
  have last : LaidOut [] ['\r'] := .blank (by simp [Padding, isBlank])
  have plain : LaidOut [plainEntry]
      ([] ++ plainEntry.toJson.render.toList ++ [] ++ ['\n'] ++ ['\r']) :=
    .entryLine plainEntry (by simp [Padding]) (by simp [Padding]) (by decide) last
  refine .blankLine (by simp [Padding, isBlank]) (by decide) ?_
  exact .entryLine oddEntry (by simp [Padding, isBlank]) (by simp [Padding, isBlank]) (by decide)
    plain

theorem ofText_of_laidOut_odd :
    LaidOut [oddEntry, plainEntry] (String.ofList oddText).toList ∧
      ofText "odd.json" (String.ofList oddText) = .ok [oddEntry, plainEntry] := by
  have laidOut : LaidOut [oddEntry, plainEntry] (String.ofList oddText).toList := by
    rw [String.toList_ofList]
    exact laidOut_oddText
  exact ⟨laidOut, ofText_of_laidOut "odd.json" laidOut⟩

end Entry

end ContractTwins
