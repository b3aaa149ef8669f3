import ContractTwins.Proofs.JoinedTexts

/-!
What the sources of a corpus hold and where they fail, in terms of their lines and of what the
system answers. Neither relation mentions how a source is read; that a line is an entry is left to
the form of entries.
-/
namespace ContractTwins

open Text

/-- The extension stands behind a point in the name, and something before the point. -/
def HasExtension (extension : String) (name : Path) : Prop :=
  ∃ stem, stem ≠ [] ∧ 46 ∉ bytes extension ∧ name.bytes = stem ++ 46 :: bytes extension

/-- The eligible names, as often as they are listed, by their bytes. -/
structure InNameOrder (eligible : Path → Prop) (listing chosen : List Path) : Prop where
  only : ∀ name ∈ chosen, eligible name
  all : ∀ name, eligible name → chosen.count name = listing.count name
  ascending : chosen.Pairwise fun a b => a.bytes ≤ b.bytes

theorem inNameOrder_unique {eligible : Path → Prop} {listing a b : List Path}
    (orderA : InNameOrder eligible listing a) (orderB : InNameOrder eligible listing b) :
    a = b := by
  have perm : a.Perm b := by
    rw [List.perm_iff_count]
    intro name
    by_cases chosen : eligible name
    · rw [orderA.all name chosen, orderB.all name chosen]
    · rw [List.count_eq_zero.mpr (mt (orderA.only name) chosen),
        List.count_eq_zero.mpr (mt (orderB.only name) chosen)]
  refine List.Perm.eq_of_pairwise ?_ orderA.ascending orderB.ascending perm
  rintro ⟨first⟩ ⟨second⟩ _ _ lower higher
  exact congrArg Path.mk (List.le_antisymm lower higher)

namespace Entry

inductive LinesHold : List (List Char) → List Entry → Prop where
  | nil : LinesHold [] []
  | blank {line : List Char} {lines : List (List Char)} {entries : List Entry}
      (empty : trim line = []) (later : LinesHold lines entries) :
      LinesHold (line :: lines) entries
  | entry {line : List Char} {lines : List (List Char)} {entry : Entry} {entries : List Entry}
      (read : form.read (String.ofList (trim line)) = .ok entry)
      (later : LinesHold lines entries) : LinesHold (line :: lines) (entry :: entries)

def TextHolds (text : String) (entries : List Entry) : Prop :=
  LinesHold (pieces '\n' text.toList) entries

def FileHolds (files : Files) (path : Path) (entries : List Entry) : Prop :=
  ∃ text, files.read path = .ok (bytes text) ∧ TextHolds text entries

inductive FileFails (files : Files) (path : Path) : CorpusError → Prop where
  | unread {error : ReadError} (found : files.read path = .error error) :
      FileFails files path (.unreadable path.text error)
  | notUtf8 {content : List UInt8} (found : files.read path = .ok content)
      (invalid : ¬IsUtf8 content) : FileFails files path (.unreadable path.text .notUtf8)
  | badLine {text : String} {number : Nat} {trimmed : String} {fault : Json.Fault}
      (found : files.read path = .ok (bytes text))
      (first : FirstBadLine text number trimmed fault) :
      FileFails files path (.badEntry path.text number trimmed fault)

/-- The system knows a file of this name in the directory, and the name is that of a corpus. -/
def Eligible (files : Files) (directory name : Path) : Prop :=
  files.kind? (directory.join name) = some .file ∧ HasExtension "json" name

def EachHolds (files : Files) (directory : Path) (chosen : List Path)
    (parts : List (List Entry)) : Prop :=
  List.Forall₂ (fun name entries => FileHolds files (directory.join name) entries) chosen parts

def FirstFails (files : Files) (directory : Path) (chosen : List Path) (error : CorpusError) :
    Prop :=
  ∃ before name after parts, chosen = before ++ name :: after ∧
    EachHolds files directory before parts ∧ FileFails files (directory.join name) error

section Lines

variable {origin : String} {number : Nat} {lines : List (List Char)} {entries : List Entry}

theorem nonblank_of_read {line : List Char} {entry : Entry}
    (read : form.read (String.ofList (trim line)) = .ok entry) : trim line ≠ [] := by
  intro empty
  rw [empty] at read
  cases read

theorem ofLines_eq_ok_iff :
    ofLines origin number (lines.map .ok) = .ok entries ↔ LinesHold lines entries := by
  induction lines generalizing number entries with
  | nil =>
    constructor
    · rintro ⟨⟩
      exact .nil
    · rintro ⟨⟩
      rfl
  | cons line rest ih =>
    simp only [List.map_cons, ofLines, Outcome.bind_eq_ok_iff, Outcome.pure_eq_ok_iff, ih]
    constructor
    · rintro ⟨found, readLine, later, holds, rfl⟩
      by_cases empty : trim line = []
      · rw [ofLine, empty] at readLine
        cases readLine
        exact .blank empty holds
      · rw [ofLine_of_nonblank empty] at readLine
        cases read : form.read (String.ofList (trim line)) with
        | ok entry =>
          rw [read] at readLine
          cases readLine
          exact .entry read holds
        | error fault =>
          rw [read] at readLine
          cases readLine
    · intro holds
      cases holds with
      | blank empty later => exact ⟨none, by rw [ofLine, empty], _, later, rfl⟩
      | entry read later =>
        refine ⟨some _, ?_, _, later, rfl⟩
        rw [ofLine_of_nonblank (nonblank_of_read read), read]

theorem exists_linesHold (readable : ∀ line ∈ lines, Readable line) :
    ∃ entries, LinesHold lines entries := by
  obtain ⟨entries, read⟩ : Outcome.Succeeds (ofLines "" 1 (lines.map .ok)) :=
    succeeds_ofLines readable
  exact ⟨entries, ofLines_eq_ok_iff.mp read⟩

end Lines

section Files

variable {files : Files} {path : Path} {entries : List Entry} {error : CorpusError}

theorem textHolds_of_laidOut {text : String} (laidOut : LaidOut entries text.toList) :
    TextHolds text entries :=
  ofLines_eq_ok_iff.mp (ofLines_of_laidOut "" laidOut 1)

theorem fileHolds_stored (held : files.read path = .ok (stored entries)) :
    FileHolds files path entries :=
  ⟨_, held, textHolds_of_laidOut (laidOut_unlines entries)⟩

theorem ofFile_of_holds (holds : FileHolds files path entries) :
    ofFile files path = .ok entries := by
  obtain ⟨text, found, lines⟩ := holds
  simp only [ofFile, found, ofBytes?_bytes]
  exact ofLines_eq_ok_iff.mpr lines

theorem ofFile_of_fails (fails : FileFails files path error) :
    ofFile files path = .error error := by
  cases fails with
  | unread found => simp only [ofFile, found]
  | notUtf8 found invalid => simp only [ofFile, found, not_isUtf8_iff.mp invalid]
  | badLine found first =>
    simp only [ofFile, found, ofBytes?_bytes]
    exact ofText_eq_error_iff.mpr ⟨_, _, _, first, rfl⟩

theorem fileHolds_or_fails (files : Files) (path : Path) :
    (∃ entries, FileHolds files path entries) ∨ ∃ error, FileFails files path error := by
  cases found : files.read path with
  | error error => exact .inr ⟨_, .unread found⟩
  | ok content =>
    by_cases utf8 : IsUtf8 content
    · obtain ⟨text, rfl⟩ := utf8
      cases read : ofText path.text text with
      | ok entries => exact .inl ⟨entries, text, found, ofLines_eq_ok_iff.mp read⟩
      | error error =>
        obtain ⟨number, trimmed, fault, first, rfl⟩ := ofText_eq_error_iff.mp read
        exact .inr ⟨_, .badLine found first⟩
    · exact .inr ⟨_, .notUtf8 found utf8⟩

end Files

section Directories

variable {files : Files} {directory : Path} {listing chosen : List Path}

theorem isCorpusName_iff {name : Path} : isCorpusName name = true ↔ HasExtension "json" name := by
  have ending : bytes ".json" = 46 :: bytes "json" := by decide
  simp only [isCorpusName, ending, Bool.and_eq_true, decide_eq_true_eq,
    List.isSuffixOf_iff_suffix]
  constructor
  · rintro ⟨⟨stem, whole⟩, longer⟩
    refine ⟨stem, ?_, by decide, whole.symm⟩
    rintro rfl
    rw [← whole, List.nil_append] at longer
    exact absurd longer (Nat.lt_irrefl _)
  · rintro ⟨stem, nonempty, -, whole⟩
    have positive : 0 < stem.length := List.length_pos_iff.mpr nonempty
    rw [whole, List.length_append]
    exact ⟨List.suffix_append _ _, by omega⟩

theorem inNameOrder_of_perm {eligible : Path → Prop} {choose : Path → Bool}
    (eligible_iff : ∀ name, choose name = true ↔ eligible name)
    (perm : chosen.Perm (listing.filter choose))
    (ascending : chosen.Pairwise fun a b => a.bytes ≤ b.bytes) :
    InNameOrder eligible listing chosen where
  only name mem := (eligible_iff name).mp (List.mem_filter.mp (perm.mem_iff.mp mem)).2
  all name eligible := by
    rw [perm.count_eq]
    exact List.count_filter ((eligible_iff name).mpr eligible)
  ascending := ascending

theorem isCorpusFile_iff {name : Path} :
    (files.isFile (directory.join name) && isCorpusName name) = true ↔
      Eligible files directory name := by
  rw [Bool.and_eq_true, isCorpusName_iff, Files.isFile, beq_iff_eq, Eligible]

theorem inNameOrder_corpusFiles (files : Files) (directory : Path) (listing : List Path) :
    InNameOrder (Eligible files directory) listing (corpusFiles files directory listing) := by
  refine inNameOrder_of_perm (fun _ => isCorpusFile_iff) (List.mergeSort_perm _ _) ?_
  have transitive : ∀ a b c : Path, decide (a.bytes ≤ b.bytes) → decide (b.bytes ≤ c.bytes) →
      decide (a.bytes ≤ c.bytes) := by
    intro a b c lower higher
    exact decide_eq_true (List.le_trans (of_decide_eq_true lower) (of_decide_eq_true higher))
  have total : ∀ a b : Path, decide (a.bytes ≤ b.bytes) || decide (b.bytes ≤ a.bytes) := by
    intro a b
    simpa using List.le_total a.bytes b.bytes
  exact (List.pairwise_mergeSort transitive total _).imp of_decide_eq_true

theorem ofFiles_of_eachHolds {parts : List (List Entry)}
    (each : EachHolds files directory chosen parts) :
    (chosen.mapM fun name => ofFile files (directory.join name)) = .ok parts :=
  Outcome.mapM_eq_ok_iff.mpr (each.imp fun _ _ => ofFile_of_holds)

theorem ofFiles_of_firstFails {error : CorpusError}
    (fails : FirstFails files directory chosen error) :
    (chosen.mapM fun name => ofFile files (directory.join name)) = .error error := by
  obtain ⟨before, name, after, parts, rfl, each, failing⟩ := fails
  have earlier := Outcome.succeeds_mapM_iff.mp ⟨parts, ofFiles_of_eachHolds each⟩
  exact Outcome.mapM_eq_error earlier (ofFile_of_fails failing) after

theorem eachHolds_or_firstFails (files : Files) (directory : Path) (chosen : List Path) :
    (∃ parts, EachHolds files directory chosen parts) ∨
      ∃ error, FirstFails files directory chosen error := by
  induction chosen with
  | nil => exact .inl ⟨[], .nil⟩
  | cons name rest ih =>
    rcases fileHolds_or_fails files (directory.join name) with ⟨entries, holds⟩ | ⟨error, fails⟩
    · rcases ih with ⟨parts, each⟩ | ⟨error, before, next, after, parts, rfl, each, fails⟩
      · exact .inl ⟨entries :: parts, .cons holds each⟩
      · exact .inr ⟨error, name :: before, next, after, entries :: parts, rfl,
          .cons holds each, fails⟩
    · exact .inr ⟨error, [], name, rest, [], rfl, .nil, fails⟩

theorem ofDirectory_of_listed (listed : files.list directory = .ok listing)
    (order : InNameOrder (Eligible files directory) listing chosen) :
    ofDirectory files directory =
      (chosen.mapM fun name => ofFile files (directory.join name)).map List.flatten := by
  rw [inNameOrder_unique order (inNameOrder_corpusFiles files directory listing), ofDirectory,
    listed]
  rfl

end Directories

end Entry

namespace Source

open Entry

inductive Holds (files : Files) : Source → List Entry → Prop where
  | stream {origin text : String} {entries : List Entry} (lines : TextHolds text entries) :
      Holds files (.stream origin (bytes text)) entries
  | file {path : Path} {entries : List Entry} (holds : FileHolds files path entries) :
      Holds files (.file path) entries
  | directory {path : Path} {listing chosen : List Path} {parts : List (List Entry)}
      (listed : files.list path = .ok listing)
      (order : InNameOrder (Eligible files path) listing chosen)
      (each : EachHolds files path chosen parts) : Holds files (.directory path) parts.flatten
  | anyDirectory {path : Path} {entries : List Entry} (kind : files.kind? path = some .directory)
      (holds : Holds files (.directory path) entries) : Holds files (.any path) entries
  | anyFile {path : Path} {entries : List Entry} (kind : files.kind? path ≠ some .directory)
      (holds : Holds files (.file path) entries) : Holds files (.any path) entries

inductive Fails (files : Files) : Source → CorpusError → Prop where
  | stream {origin : String} {content : List UInt8} {error : CorpusError}
      (first : FirstFailure origin content error) : Fails files (.stream origin content) error
  | brokenEarlier {origin : String} {content : List UInt8} {reason : ReadError}
      {error : CorpusError} (first : FirstUnsound origin (pieces 10 content).dropLast error) :
      Fails files (.broken origin content reason) error
  | broken {origin : String} {content : List UInt8} {reason : ReadError}
      (sound : ∀ line ∈ (pieces 10 content).dropLast, Sound line) :
      Fails files (.broken origin content reason) (.unreadable origin reason)
  | file {path : Path} {error : CorpusError} (fails : FileFails files path error) :
      Fails files (.file path) error
  | unlisted {path : Path} {error : ReadError} (unlisted : files.list path = .error error) :
      Fails files (.directory path) (.unreadable path.text error)
  | directory {path : Path} {listing chosen : List Path} {error : CorpusError}
      (listed : files.list path = .ok listing)
      (order : InNameOrder (Eligible files path) listing chosen)
      (first : FirstFails files path chosen error) : Fails files (.directory path) error
  | anyDirectory {path : Path} {error : CorpusError} (kind : files.kind? path = some .directory)
      (fails : Fails files (.directory path) error) : Fails files (.any path) error
  | anyFile {path : Path} {error : CorpusError} (kind : files.kind? path ≠ some .directory)
      (fails : Fails files (.file path) error) : Fails files (.any path) error

section Sources

variable {files : Files} {source : Source} {entries : List Entry} {error : CorpusError}

theorem entries_any_of_directory {path : Path} (kind : files.kind? path = some .directory) :
    (Source.any path).entries files = (Source.directory path).entries files := by
  rw [Source.entries, Source.entries, Files.isDirectory, kind]
  rfl

theorem entries_any_of_file {path : Path} (kind : files.kind? path ≠ some .directory) :
    (Source.any path).entries files = (Source.file path).entries files := by
  rw [Source.entries, Source.entries, Files.isDirectory, if_neg (by simpa using kind)]

theorem entries_of_holds (holds : source.Holds files entries) :
    source.entries files = .ok entries := by
  induction holds with
  | stream lines =>
    rw [Source.entries, ofStream_bytes]
    exact ofLines_eq_ok_iff.mpr lines
  | file holds => rw [Source.entries, ofFile_of_holds holds]
  | directory listed order each =>
    rw [Source.entries, ofDirectory_of_listed listed order, ofFiles_of_eachHolds each]
    rfl
  | anyDirectory kind holds ih => rw [entries_any_of_directory kind, ih]
  | anyFile kind holds ih => rw [entries_any_of_file kind, ih]

theorem entries_of_fails (fails : source.Fails files error) :
    source.entries files = .error error := by
  induction fails with
  | stream first => rw [Source.entries, ofStream_of_firstFailure first]
  | brokenEarlier first =>
    rw [Source.entries, ofBroken]
    exact ofLines_of_firstUnsound first _
  | broken sound =>
    rw [Source.entries, ofBroken]
    exact ofLines_after_sound sound rfl
  | file fails => rw [Source.entries, ofFile_of_fails fails]
  | unlisted unlisted => rw [Source.entries, ofDirectory, unlisted]
  | directory listed order first =>
    rw [Source.entries, ofDirectory_of_listed listed order, ofFiles_of_firstFails first]
    rfl
  | anyDirectory kind fails ih => rw [entries_any_of_directory kind, ih]
  | anyFile kind fails ih => rw [entries_any_of_file kind, ih]

theorem holds_or_fails_stream (files : Files) (origin : String) (content : List UInt8) :
    (∃ entries, Holds files (.stream origin content) entries) ∨
      ∃ error, Fails files (.stream origin content) error := by
  rcases sound_or_firstUnsound origin (pieces 10 content) with all | ⟨error, first⟩
  · obtain ⟨text, rfl⟩ : IsUtf8 content := isUtf8_of_pieces fun line mem => by
      obtain ⟨text, spelled, -⟩ := all line mem
      exact ⟨text, spelled⟩
    -- A line of the text is sound, as its bytes are a line of the stream.
    have readable : ∀ line ∈ pieces '\n' text.toList, Readable line := by
      intro line mem
      have memBytes : bytes (String.ofList line) ∈ pieces 10 (bytes text) := by
        rw [pieces_bytes]
        exact List.mem_map_of_mem mem
      obtain ⟨same, spelled, reads⟩ := all _ memBytes
      rwa [bytes_injective spelled, String.toList_ofList] at reads
    obtain ⟨entries, lines⟩ := exists_linesHold readable
    exact .inl ⟨entries, .stream lines⟩
  · exact .inr ⟨error, .stream first⟩

theorem holds_or_fails_directory (files : Files) (path : Path) :
    (∃ entries, Holds files (.directory path) entries) ∨
      ∃ error, Fails files (.directory path) error := by
  cases listed : files.list path with
  | error error => exact .inr ⟨_, .unlisted listed⟩
  | ok listing =>
    have order := inNameOrder_corpusFiles files path listing
    rcases eachHolds_or_firstFails files path (corpusFiles files path listing) with
      ⟨parts, each⟩ | ⟨error, first⟩
    · exact .inl ⟨_, .directory listed order each⟩
    · exact .inr ⟨error, .directory listed order first⟩

theorem holds_or_fails_file (files : Files) (path : Path) :
    (∃ entries, Holds files (.file path) entries) ∨ ∃ error, Fails files (.file path) error := by
  rcases fileHolds_or_fails files path with ⟨entries, holds⟩ | ⟨error, fails⟩
  · exact .inl ⟨entries, .file holds⟩
  · exact .inr ⟨error, .file fails⟩

theorem holds_or_fails (files : Files) (source : Source) :
    (∃ entries, source.Holds files entries) ∨ ∃ error, source.Fails files error := by
  cases source with
  | stream origin content => exact holds_or_fails_stream files origin content
  | broken origin content reason =>
    rcases sound_or_firstUnsound origin (pieces 10 content).dropLast with all | ⟨error, first⟩
    · exact .inr ⟨_, .broken all⟩
    · exact .inr ⟨error, .brokenEarlier first⟩
  | file path => exact holds_or_fails_file files path
  | directory path => exact holds_or_fails_directory files path
  | any path =>
    by_cases kind : files.kind? path = some .directory
    · rcases holds_or_fails_directory files path with ⟨entries, holds⟩ | ⟨error, fails⟩
      · exact .inl ⟨entries, .anyDirectory kind holds⟩
      · exact .inr ⟨error, .anyDirectory kind fails⟩
    · rcases holds_or_fails_file files path with ⟨entries, holds⟩ | ⟨error, fails⟩
      · exact .inl ⟨entries, .anyFile kind holds⟩
      · exact .inr ⟨error, .anyFile kind fails⟩

theorem entries_eq_ok_iff : source.entries files = .ok entries ↔ source.Holds files entries := by
  constructor
  · intro read
    rcases holds_or_fails files source with ⟨other, holds⟩ | ⟨error, fails⟩
    · rw [entries_of_holds holds] at read
      cases read
      exact holds
    · rw [entries_of_fails fails] at read
      cases read
  · exact entries_of_holds

theorem entries_eq_error_iff : source.entries files = .error error ↔ source.Fails files error := by
  constructor
  · intro read
    rcases holds_or_fails files source with ⟨entries, holds⟩ | ⟨other, fails⟩
    · rw [entries_of_holds holds] at read
      cases read
    · rw [entries_of_fails fails] at read
      cases read
      exact fails
  · exact entries_of_fails

end Sources

end Source

end ContractTwins
