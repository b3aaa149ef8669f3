import ContractTwins.Proofs.CorpusRuns
import ContractTwins.Proofs.Outcomes
import ContractTwins.Proofs.Utf8Lines

/-!
A stream is decoded line by line and read up to its first failure, and a file is decoded as a whole
before any line is read. The two agree on every text, and otherwise only in that both fail.
-/
namespace ContractTwins

open Text

namespace CorpusError

def withOrigin (origin : String) : CorpusError → CorpusError
  | .unreadable _ error => .unreadable origin error
  | .badEntry _ line text fault => .badEntry origin line text fault

end CorpusError

namespace Entry

def Readable (line : List Char) : Prop :=
  trim line = [] ∨ ∃ entry, form.read (String.ofList (trim line)) = .ok entry

def BadLine (line : List Char) (trimmed : String) (fault : Json.Fault) : Prop :=
  trim line = trimmed.toList ∧ trimmed ≠ "" ∧ form.read trimmed = .error fault

/-- The line is a text that is blank or an entry. -/
def Sound (line : List UInt8) : Prop :=
  ∃ text, bytes text = line ∧ (trim text.toList = [] ∨
    ∃ entry, form.read (String.ofList (trim text.toList)) = .ok entry)

def Bad (line : List UInt8) (trimmed : String) (fault : Json.Fault) : Prop :=
  ∃ text, bytes text = line ∧ trim text.toList = trimmed.toList ∧ trimmed ≠ "" ∧
    form.read trimmed = .error fault

/-- The failure of the first line that is not sound: it is no text, or a text that is no entry. -/
def FirstUnsound (origin : String) (lines : List (List UInt8)) (error : CorpusError) : Prop :=
  ∃ before first after, lines = before ++ first :: after ∧ (∀ line ∈ before, Sound line) ∧
    (¬IsUtf8 first ∧ error = .unreadable origin .notUtf8 ∨
      ∃ trimmed fault, Bad first trimmed fault ∧
        error = .badEntry origin (before.length + 1) trimmed fault)

def FirstFailure (origin : String) (content : List UInt8) (error : CorpusError) : Prop :=
  FirstUnsound origin (pieces 10 content) error

theorem ofLine_of_nonblank {line : List Char} (nonblank : trim line ≠ []) (origin : String)
    (number : Nat) :
    ofLine origin number line =
      match form.read (String.ofList (trim line)) with
      | .ok entry => .ok (some entry)
      | .error fault => .error (.badEntry origin number (String.ofList (trim line)) fault) := by
  unfold ofLine
  split
  · contradiction
  · rfl

theorem ofLine_bad {text : List Char} {trimmed : String} {fault : Json.Fault}
    (same : trim text = trimmed.toList) (nonempty : trimmed ≠ "")
    (read : form.read trimmed = .error fault) (origin : String) (number : Nat) :
    ofLine origin number text = .error (.badEntry origin number trimmed fault) := by
  have nonblank : trim text ≠ [] := fun blank =>
    nonempty (String.toList_eq_nil_iff.mp (same.symm.trans blank))
  rw [ofLine_of_nonblank nonblank, same, String.ofList_toList, read]

theorem ofLine_sound {text : List Char} (sound : trim text = [] ∨
    ∃ entry, form.read (String.ofList (trim text)) = .ok entry) (origin : String) (number : Nat) :
    ∃ entry, ofLine origin number text = .ok entry := by
  by_cases blank : trim text = []
  · exact ⟨none, by rw [ofLine, blank]⟩
  · obtain ⟨entry, read⟩ := sound.resolve_left blank
    exact ⟨some entry, by rw [ofLine_of_nonblank blank, read]⟩

theorem readable_or_badLine (line : List Char) :
    Readable line ∨ ∃ trimmed fault, BadLine line trimmed fault := by
  by_cases blank : trim line = []
  · exact .inl (.inl blank)
  · cases read : form.read (String.ofList (trim line)) with
    | ok entry => exact .inl (.inr ⟨entry, read⟩)
    | error fault =>
      refine .inr ⟨_, fault, String.toList_ofList.symm, fun empty => blank ?_, read⟩
      rw [← String.toList_eq_nil_iff, String.toList_ofList] at empty
      exact empty

theorem sound_or_bad (line : List UInt8) :
    Sound line ∨ ¬IsUtf8 line ∨ ∃ trimmed fault, Bad line trimmed fault := by
  by_cases utf8 : IsUtf8 line
  · obtain ⟨text, rfl⟩ := utf8
    rcases readable_or_badLine text.toList with readable | ⟨trimmed, fault, bad⟩
    · exact .inl ⟨text, rfl, readable⟩
    · exact .inr (.inr ⟨trimmed, fault, text, rfl, bad⟩)
  · exact .inr (.inl utf8)

theorem decodeLine_bytes (text : String) : decodeLine (bytes text) = .ok text.toList := by
  rw [decodeLine, ofBytes?_bytes]

theorem decodeLine_of_not_utf8 {line : List UInt8} (invalid : ¬IsUtf8 line) :
    decodeLine line = .error .notUtf8 := by
  rw [decodeLine, not_isUtf8_iff.mp invalid]

/-- Cut into lines, the bytes of a text are decoded to the lines of the text. -/
theorem ofStream_bytes (origin text : String) :
    ofStream origin (bytes text) = ofText origin text := by
  rw [ofStream, pieces_bytes, List.map_map, ofText]
  congr 1
  apply List.map_congr_left
  intro line _
  rw [Function.comp_apply, decodeLine_bytes, String.toList_ofList]

theorem ofLines_after {origin : String} {number : Nat}
    {before : List (Except ReadError (List Char))}
    (readable : ∀ line ∈ before, ∃ text, line = .ok text ∧ Readable text)
    (after : List (Except ReadError (List Char))) {error : CorpusError} :
    ofLines origin number (before ++ after) = .error error ↔
      ofLines origin (number + before.length) after = .error error := by
  induction before generalizing number with
  | nil => rfl
  | cons line rest ih =>
    rw [List.forall_mem_cons] at readable
    obtain ⟨⟨text, rfl, reads⟩, later⟩ := readable
    obtain ⟨entry, read⟩ := ofLine_sound reads origin number
    rw [List.cons_append, ofLines, read, List.length_cons, Nat.add_comm rest.length,
      ← Nat.add_assoc, ← ih later]
    cases ofLines origin (number + 1) (rest ++ after) with
    | error other => rfl
    | ok entries => exact iff_of_false (by rintro ⟨⟩) (by rintro ⟨⟩)

/-- Sound lines leave it to the later lines whether there is a failure, and which. -/
theorem ofLines_after_sound {origin : String} {before : List (List UInt8)}
    (sound : ∀ line ∈ before, Sound line) {after : List (Except ReadError (List Char))}
    {number : Nat} {error : CorpusError}
    (fails : ofLines origin (number + before.length) after = .error error) :
    ofLines origin number (before.map decodeLine ++ after) = .error error := by
  have readable : ∀ line ∈ before.map decodeLine, ∃ text, line = .ok text ∧ Readable text := by
    intro line mem
    obtain ⟨raw, memRaw, rfl⟩ := List.mem_map.mp mem
    obtain ⟨text, rfl, reads⟩ := sound raw memRaw
    exact ⟨text.toList, decodeLine_bytes text, reads⟩
  rw [ofLines_after readable, List.length_map]
  exact fails

theorem ofLines_of_firstUnsound {origin : String} {lines : List (List UInt8)} {error : CorpusError}
    (first : FirstUnsound origin lines error) (after : List (Except ReadError (List Char))) :
    ofLines origin 1 (lines.map decodeLine ++ after) = .error error := by
  obtain ⟨before, line, later, rfl, sound, failure⟩ := first
  rw [List.map_append, List.map_cons, List.append_assoc]
  apply ofLines_after_sound sound
  rw [List.cons_append]
  rcases failure with ⟨invalid, rfl⟩ | ⟨trimmed, fault, ⟨text, rfl, same, nonempty, read⟩, rfl⟩
  · rw [decodeLine_of_not_utf8 invalid, ofLines]
  · rw [decodeLine_bytes, ofLines, ofLine_bad same nonempty read, Nat.add_comm]
    rfl

theorem ofStream_of_firstFailure {origin : String} {content : List UInt8} {error : CorpusError}
    (first : FirstFailure origin content error) : ofStream origin content = .error error := by
  have fails := ofLines_of_firstUnsound first []
  rwa [List.append_nil] at fails

theorem sound_or_firstUnsound (origin : String) (lines : List (List UInt8)) :
    (∀ line ∈ lines, Sound line) ∨ ∃ error, FirstUnsound origin lines error := by
  rcases Outcome.all_or_first Sound lines with all | ⟨before, first, after, cut, each, unsound⟩
  · exact .inl all
  · right
    rcases (sound_or_bad first).resolve_left unsound with notText | ⟨trimmed, fault, bad⟩
    · exact ⟨_, before, first, after, cut, each, .inl ⟨notText, rfl⟩⟩
    · exact ⟨_, before, first, after, cut, each, .inr ⟨trimmed, fault, bad, rfl⟩⟩

theorem exists_firstFailure (origin : String) {content : List UInt8} (invalid : ¬IsUtf8 content) :
    ∃ error, FirstFailure origin content error := by
  refine (sound_or_firstUnsound origin (pieces 10 content)).resolve_left fun all => invalid ?_
  refine isUtf8_of_pieces fun line mem => ?_
  obtain ⟨text, spelled, -⟩ := all line mem
  exact ⟨text, spelled⟩

section Relabelled

variable {relabel : CorpusError → CorpusError} {origin other : String} {shift : Nat}

theorem ofLine_relabelled
    (bad : ∀ line text fault, relabel (.badEntry other line text fault) =
      .badEntry origin (line + shift) text fault) (number : Nat) (line : List Char) :
    ofLine origin (number + shift) line = (ofLine other number line).mapError relabel := by
  by_cases blank : trim line = []
  · rw [ofLine, ofLine, blank]
    rfl
  · rw [ofLine_of_nonblank blank, ofLine_of_nonblank blank]
    cases form.read (String.ofList (trim line)) with
    | ok entry => rfl
    | error fault => exact congrArg Except.error (bad number _ fault).symm

/-- The name of the source and the numbers of the lines stand in errors and nowhere else. -/
theorem ofLines_relabelled
    (unreadable : ∀ error, relabel (.unreadable other error) = .unreadable origin error)
    (bad : ∀ line text fault, relabel (.badEntry other line text fault) =
      .badEntry origin (line + shift) text fault) (number : Nat)
    (lines : List (Except ReadError (List Char))) :
    ofLines origin (number + shift) lines = (ofLines other number lines).mapError relabel := by
  induction lines generalizing number with
  | nil => rfl
  | cons line rest ih =>
    cases line with
    | error error => exact congrArg Except.error (unreadable error).symm
    | ok text =>
      rw [ofLines, ofLines, ofLine_relabelled bad, Nat.add_right_comm, ih]
      cases ofLine other number text with
      | error error => rfl
      | ok entry => cases ofLines other (number + 1) rest <;> rfl

end Relabelled

theorem ofLines_withOrigin (origin other : String) (number : Nat)
    (lines : List (Except ReadError (List Char))) :
    ofLines origin number lines =
      (ofLines other number lines).mapError (.withOrigin origin) :=
  @ofLines_relabelled _ origin other 0 (fun _ => rfl) (fun _ _ _ => rfl) number lines

end Entry

namespace SharedCorpus

/-- Loading a stream of some bytes beside loading a file that holds them. -/
structure LoadersAgree (shared : SharedCorpus) (files : Files) (origin : String) (path : Path)
    (content : List UInt8) : Prop where
  succeed : ∀ count next,
    shared.step (.load files (.stream origin content)) = (.ok count, next) ↔
      shared.step (.load files (.file path)) = (.ok count, next)
  appended : ∀ count next, shared.step (.load files (.file path)) = (.ok count, next) →
    ∃ entries, entries.length = count ∧
      next = { shared with current := shared.current.extend entries }
  utf8 : IsUtf8 content →
    shared.step (.load files (.stream path.text content)) = shared.step (.load files (.file path))
  named : shared.step (.load files (.stream origin content)) =
    Prod.map (Except.mapError (.withOrigin origin)) id
      (shared.step (.load files (.stream path.text content)))
  file : ¬IsUtf8 content →
    shared.step (.load files (.file path)) = (.error (.unreadable path.text .notUtf8), shared)
  stream : ¬IsUtf8 content → ∃ error, Entry.FirstFailure origin content error ∧
    shared.step (.load files (.stream origin content)) = (.error error, shared)

section Loaders

variable {shared : SharedCorpus} {files : Files} {path : Path}

theorem step_withOrigin (origin other : String) (content : List UInt8) :
    shared.step (.load files (.stream origin content)) =
      Prod.map (Except.mapError (.withOrigin origin)) id
        (shared.step (.load files (.stream other content))) := by
  have same : (Source.stream origin content).entries files =
      ((Source.stream other content).entries files).mapError (.withOrigin origin) :=
    Entry.ofLines_withOrigin origin other 1 _
  cases read : (Source.stream other content).entries files with
  | ok entries =>
    rw [read] at same
    rw [step_load_ok shared read, step_load_ok shared same]
    rfl
  | error error =>
    rw [read] at same
    rw [step_load_error shared read, step_load_error shared same]
    rfl

theorem step_stream_of_utf8 {content : List UInt8} (held : files.read path = .ok content)
    (utf8 : IsUtf8 content) :
    shared.step (.load files (.stream path.text content)) =
      shared.step (.load files (.file path)) := by
  obtain ⟨text, rfl⟩ := utf8
  have same : (Source.stream path.text (bytes text)).entries files =
      (Source.file path).entries files := by
    rw [Source.entries, Source.entries, Entry.ofStream_bytes]
    simp only [Entry.ofFile, held, ofBytes?_bytes]
  rw [step_load, step_load, Corpus.load, Corpus.load, same]

theorem step_file_of_not_utf8 {content : List UInt8} (held : files.read path = .ok content)
    (invalid : ¬IsUtf8 content) :
    shared.step (.load files (.file path)) = (.error (.unreadable path.text .notUtf8), shared) := by
  apply step_load_error
  simp only [Source.entries, Entry.ofFile, held, not_isUtf8_iff.mp invalid]

theorem step_stream_of_not_utf8 (origin : String) {content : List UInt8}
    (invalid : ¬IsUtf8 content) :
    ∃ error, Entry.FirstFailure origin content error ∧
      shared.step (.load files (.stream origin content)) = (.error error, shared) := by
  obtain ⟨error, first⟩ := Entry.exists_firstFailure origin invalid
  exact ⟨error, first, step_load_error shared (Entry.ofStream_of_firstFailure first)⟩

theorem appended_of_step {source : Source} {count : Nat} {next : SharedCorpus}
    (loaded : shared.step (.load files source) = (.ok count, next)) :
    ∃ entries, entries.length = count ∧
      next = { shared with current := shared.current.extend entries } := by
  cases read : source.entries files with
  | ok entries =>
    rw [step_load_ok shared read] at loaded
    cases loaded
    exact ⟨entries, rfl, rfl⟩
  | error error =>
    rw [step_load_error shared read] at loaded
    cases loaded

end Loaders

/-- The two loaders agree on every content. -/
theorem loaders_agree (shared : SharedCorpus) {files : Files} (origin : String) {path : Path}
    {content : List UInt8} (held : files.read path = .ok content) :
    LoadersAgree shared files origin path content where
  succeed count next := by
    by_cases utf8 : IsUtf8 content
    · rw [step_withOrigin origin path.text, step_stream_of_utf8 held utf8,
        Outcome.map_mapError_eq_ok_iff]
    · have stream : ∃ error, Entry.FirstFailure origin content error ∧
          shared.step (.load files (.stream origin content)) = (.error error, shared) :=
        step_stream_of_not_utf8 origin utf8
      obtain ⟨error, -, failed⟩ := stream
      rw [failed, step_file_of_not_utf8 held utf8]
      simp
  appended _ _ := appended_of_step
  utf8 := step_stream_of_utf8 held
  named := step_withOrigin origin path.text content
  file := step_file_of_not_utf8 held
  stream := step_stream_of_not_utf8 origin

/-- A line that is no entry, and after it a byte that no text has. -/
def brokenContent : List UInt8 := [120, 10, 255]

theorem not_isUtf8_brokenContent : ¬IsUtf8 brokenContent := by
  rw [not_isUtf8_iff]
  decide

theorem firstFailure_brokenContent {origin : String} {error : CorpusError}
    (first : Entry.FirstFailure origin brokenContent error) :
    ∃ fault, error = .badEntry origin 1 "x" fault := by
  have text : bytes "x" = [120] := by decide
  have cut : pieces 10 brokenContent = [[120], [255]] := by decide
  obtain ⟨before, line, after, same, sound, failure⟩ := first
  rw [cut] at same
  cases before with
  | nil =>
    obtain ⟨rfl, -⟩ := List.cons.inj same
    rcases failure with ⟨invalid, -⟩ | ⟨trimmed, fault, ⟨whole, spelled, trims, -⟩, rfl⟩
    · exact absurd ⟨"x", text⟩ invalid
    · rw [bytes_injective (spelled.trans text.symm)] at trims
      rw [← String.ofList_toList (s := trimmed), ← trims]
      exact ⟨fault, rfl⟩
  | cons other more =>
    -- The first line is read before the second, and it is no entry.
    obtain ⟨rfl, -⟩ := List.cons.inj same
    obtain ⟨whole, spelled, blank | ⟨entry, read⟩⟩ := sound [120] List.mem_cons_self
    all_goals rw [bytes_injective (spelled.trans text.symm)] at *
    · cases blank
    · cases read

def everywhere (content : List UInt8) : Files where
  kind? _ := some .file
  list _ := .error .notADirectory
  read _ := .ok content

def purseContent : List UInt8 := Entry.stored [Entry.plainEntry]

theorem loaders_agree_broken :
    onePurse.step (.load (everywhere purseContent) (.stream "pipe" purseContent)) =
        (.ok 1, ⟨⟨[Entry.plainEntry, Entry.plainEntry]⟩, []⟩) ∧
      onePurse.step (.load (everywhere brokenContent) (.file "purses")) =
        (.error (.unreadable "purses" .notUtf8), onePurse) ∧
      ∃ fault, onePurse.step (.load (everywhere brokenContent) (.stream "pipe" brokenContent)) =
        (.error (.badEntry "pipe" 1 "x" fault), onePurse) := by
  have sound : LoadersAgree onePurse (everywhere purseContent) "pipe" "purses" purseContent :=
    loaders_agree onePurse "pipe" rfl
  have broken : LoadersAgree onePurse (everywhere brokenContent) "pipe" "purses" brokenContent :=
    loaders_agree onePurse "pipe" rfl
  have read : (Source.file "purses").entries (everywhere purseContent) =
      .ok [Entry.plainEntry] := by
    rw [Source.entries]
    exact Entry.ofFile_stored rfl
  have whole : onePurse.step (.load (everywhere purseContent) (.file "purses")) =
      (.ok 1, ⟨⟨[Entry.plainEntry, Entry.plainEntry]⟩, []⟩) := step_load_ok onePurse read
  have file := broken.file not_isUtf8_brokenContent
  rw [Path.text_ofText] at file
  obtain ⟨error, first, failed⟩ := broken.stream not_isUtf8_brokenContent
  obtain ⟨fault, rfl⟩ := firstFailure_brokenContent first
  exact ⟨(sound.succeed 1 _).mpr whole, file, fault, failed⟩

end SharedCorpus

end ContractTwins
