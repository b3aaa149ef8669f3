import ContractTwins.Proofs.StoredOutput
import ContractTwins.Proofs.Utf8Lines

/-!
Each input file has records, or fails at one of the stages of its reading, or is left out for its
name, whatever the others are. What a command logs is not spoken of here, nor what it does with a
corpus that cannot be loaded.
-/
namespace ContractTwins.CommandLine

open Syntax

/-- The text of the file is JSON that lifts to a tree, and the tree has these records. -/
def Gives (files : Files) (options : Options) (before path : String) (records : List Record) :
    Prop :=
  ∃ text json document, files.read path = .ok (Text.bytes text) ∧
    Json.read text = .ok json ∧ lift json = .ok document ∧
    fingerprint document options (some (before ++ path)) = .ok records

/-- The stage at which the file fails, and why. -/
inductive Fails (files : Files) (options : Options) (before path : String) : FileError → Prop where
  | unread {error : ReadError} (found : files.read path = .error error) :
      Fails files options before path (.unreadable path error)
  | notUtf8 {content : List UInt8} (found : files.read path = .ok content)
      (invalid : ¬Text.IsUtf8 content) : Fails files options before path (.unreadable path .notUtf8)
  | notJson {text : String} {fault : Json.Fault}
      (found : files.read path = .ok (Text.bytes text)) (read : Json.read text = .error fault) :
      Fails files options before path (.notJson path text fault)
  | notATree {text : String} {json : Json} {error : LiftError}
      (found : files.read path = .ok (Text.bytes text)) (read : Json.read text = .ok json)
      (lifted : lift json = .error error) :
      Fails files options before path (.notATree path error)
  | failed {text : String} {json : Json} {document : Node} {error : FingerprintError}
      (found : files.read path = .ok (Text.bytes text)) (read : Json.read text = .ok json)
      (lifted : lift json = .ok document)
      (taken : fingerprint document options (some (before ++ path)) = .error error) :
      Fails files options before path (.failed path error)

structure Work where
  options : Options
  before : String
  report : List Record → List String

def Command.over (paths : List String) : Command → Command
  | .hash input basePath => .hash { input with files := paths } basePath
  | .compare input sources json => .compare { input with files := paths } sources json
  | .dupes input => .dupes { input with files := paths }

/-- A command with valid options, whose corpus can be loaded. -/
inductive Ready (files : Files) : Command → Work → Prop where
  | hash {input : Input} {options : Options} (basePath : String)
      (accepted : Options.parse input.algorithm input.modes = .ok options) :
      Ready files (.hash input basePath) ⟨options, basePrefix basePath, entryLines⟩
  | compare {input : Input} {options : Options} {sources : List String} {corpus : Corpus}
      (json : Bool) (accepted : Options.parse input.algorithm input.modes = .ok options)
      (loaded : Corpus.empty.loadAll files (sources.map fun source => .any (.ofText source)) =
        .ok corpus) :
      Ready files (.compare input sources json) ⟨options, "", fun records =>
        let found := Results.empty.addRecords corpus.entries records
        if json then [found.toJson.renderPretty] else matchLines found⟩
  | dupes {input : Input} {options : Options}
      (accepted : Options.parse input.algorithm input.modes = .ok options) :
      Ready files (.dupes input) ⟨options, "", fun records =>
        duplicateLines (DuplicateGroup.find records)⟩

inductive Collected (files : Files) (work : Work) :
    List String → List Record → List FileError → Prop where
  | nil : Collected files work [] [] []
  | excluded {path : String} {rest : List String} {records : List Record}
      {errors : List FileError} (named : isExcluded path = true)
      (later : Collected files work rest records errors) :
      Collected files work (path :: rest) records errors
  | given {path : String} {rest : List String} {found records : List Record}
      {errors : List FileError} (named : isExcluded path = false)
      (gives : Gives files work.options work.before path found)
      (later : Collected files work rest records errors) :
      Collected files work (path :: rest) (found ++ records) errors
  | failed {path : String} {rest : List String} {records : List Record} {error : FileError}
      {errors : List FileError} (named : isExcluded path = false)
      (fails : Fails files work.options work.before path error)
      (later : Collected files work rest records errors) :
      Collected files work (path :: rest) records (error :: errors)

def failureLine (error : FileError) : String := "ERROR processing file: " ++ error.message

section Reading

variable {files : Files} {options : Options} {before path : String}

theorem fileRecords_of_gives {records : List Record}
    (gives : Gives files options before path records) :
    fileRecords files options before path = .ok records := by
  obtain ⟨text, json, document, found, read, lifted, taken⟩ := gives
  simp only [fileRecords, readDocument_of_text found read lifted, taken]

theorem fileRecords_of_fails {error : FileError} (fails : Fails files options before path error) :
    fileRecords files options before path = .error error := by
  cases fails with
  | unread found => simp only [fileRecords, readDocument, readText, found]
  | notUtf8 found invalid =>
    simp only [fileRecords, readDocument, readText, found, Text.not_isUtf8_iff.mp invalid]
  | notJson found read =>
    simp only [fileRecords, readDocument, readText, found, Text.ofBytes?_bytes, read]
  | notATree found read lifted =>
    simp only [fileRecords, readDocument, readText, found, Text.ofBytes?_bytes, read, lifted]
  | failed found read lifted taken =>
    simp only [fileRecords, readDocument_of_text found read lifted, taken]

theorem gives_or_fails (files : Files) (options : Options) (before path : String) :
    (∃ records, Gives files options before path records) ∨
      ∃ error, Fails files options before path error := by
  cases found : files.read path with
  | error error => exact .inr ⟨_, .unread found⟩
  | ok content =>
    by_cases utf8 : Text.IsUtf8 content
    · obtain ⟨text, rfl⟩ := utf8
      cases read : Json.read text with
      | error fault => exact .inr ⟨_, .notJson found read⟩
      | ok json =>
        cases lifted : lift json with
        | error error => exact .inr ⟨_, .notATree found read lifted⟩
        | ok document =>
          cases taken : fingerprint document options (some (before ++ path)) with
          | error error => exact .inr ⟨_, .failed found read lifted taken⟩
          | ok records => exact .inl ⟨_, text, json, document, found, read, lifted, taken⟩
    · exact .inr ⟨_, .notUtf8 found utf8⟩

end Reading

section Collecting

variable {files : Files} {work : Work} {paths : List String} {records : List Record}
  {errors : List FileError}

theorem inputRecords_excluded {options : Options} {before path : String}
    (named : isExcluded path = true) (rest : List String) :
    inputRecords files options before (path :: rest) = inputRecords files options before rest := by
  simp only [inputRecords, List.filter_cons, named, Bool.not_true, Bool.false_eq_true, if_false]

theorem inputRecords_included {options : Options} {before path : String}
    (named : isExcluded path = false) (rest : List String) :
    inputRecords files options before (path :: rest) =
      fileRecords files options before path :: inputRecords files options before rest := by
  simp only [inputRecords, List.filter_cons, named, Bool.not_false, if_true, List.map_cons]

theorem inputRecords_append (files : Files) (options : Options) (before : String)
    (first later : List String) :
    inputRecords files options before (first ++ later) =
      inputRecords files options before first ++ inputRecords files options before later := by
  rw [inputRecords, List.filter_append, List.map_append]
  rfl

theorem recordsOf_append (first later : List (Except FileError (List Record))) :
    recordsOf (first ++ later) = recordsOf first ++ recordsOf later := by
  rw [recordsOf, List.filterMap_append, List.flatten_append]
  rfl

theorem errorsOf_append (first later : List (Except FileError (List Record))) :
    errorsOf (first ++ later) = errorsOf first ++ errorsOf later :=
  List.filterMap_append

theorem recordsOf_ok (found : List Record) (rest : List (Except FileError (List Record))) :
    recordsOf (.ok found :: rest) = found ++ recordsOf rest := rfl

theorem recordsOf_error (error : FileError) (rest : List (Except FileError (List Record))) :
    recordsOf (.error error :: rest) = recordsOf rest := rfl

theorem collected (files : Files) (work : Work) (paths : List String) :
    Collected files work paths
      (recordsOf (inputRecords files work.options work.before paths))
      (errorsOf (inputRecords files work.options work.before paths)) := by
  induction paths with
  | nil => exact .nil
  | cons path rest ih =>
    cases named : isExcluded path with
    | true =>
      rw [inputRecords_excluded named]
      exact .excluded named ih
    | false =>
      rw [inputRecords_included named]
      rcases gives_or_fails files work.options work.before path with ⟨found, gives⟩ | ⟨error, fails⟩
      · rw [fileRecords_of_gives gives, recordsOf_ok]
        exact .given named gives ih
      · rw [fileRecords_of_fails fails, recordsOf_error]
        exact .failed named fails ih

theorem no_failures_iff (collected : Collected files work paths records errors) :
    errors = [] ↔ ∀ path ∈ paths, isExcluded path = false →
      ∃ found, Gives files work.options work.before path found := by
  induction collected with
  | nil => simp
  | excluded named later ih =>
    rw [ih, List.forall_mem_cons]
    simp [named]
  | given named gives later ih =>
    rw [ih, List.forall_mem_cons]
    exact (and_iff_right fun _ => ⟨_, gives⟩).symm
  | failed named fails later ih =>
    refine iff_of_false (List.cons_ne_nil _ _) fun each => ?_
    obtain ⟨found, gives⟩ := each _ List.mem_cons_self named
    have both := fileRecords_of_fails fails
    rw [fileRecords_of_gives gives] at both
    cases both

end Collecting

/-- A command takes each of its input files by itself. -/
structure TakesEach (files : Files) (command : Command) (work : Work) : Prop where
  outcome : ∀ paths, ∃ records errors, Collected files work paths records errors ∧
    run files (command.over paths) =
      ⟨work.report records, errors.map failureLine, errors.isEmpty⟩
  status : ∀ paths, (run files (command.over paths)).status = 0 ↔
    ∀ path ∈ paths, isExcluded path = false →
      ∃ records, Gives files work.options work.before path records
  /-- A file that is left out shows neither in the output, nor in the reports, nor in the status,
  wherever it is named. -/
  excluded : ∀ before path after, isExcluded path = true →
    (run files (command.over (before ++ path :: after))).output =
        (run files (command.over (before ++ after))).output ∧
      (run files (command.over (before ++ path :: after))).reports =
        (run files (command.over (before ++ after))).reports ∧
      (run files (command.over (before ++ path :: after))).status =
        (run files (command.over (before ++ after))).status
  failing : ∀ before path after error, isExcluded path = false →
    Fails files work.options work.before path error →
      (run files (command.over (before ++ path :: after))).output =
          (run files (command.over (before ++ after))).output ∧
        (run files (command.over (before ++ path :: after))).reports =
          (run files (command.over before)).reports ++
            failureLine error :: (run files (command.over after)).reports ∧
        (run files (command.over (before ++ path :: after))).status = 1

section Commands

variable {files : Files} {command : Command} {work : Work}

theorem run_over (ready : Ready files command work) (paths : List String) :
    run files (command.over paths) =
      let results := inputRecords files work.options work.before paths
      outcomeOf results (work.report (recordsOf results)) := by
  cases ready with
  | @hash input options basePath accepted =>
    exact @run_hash files { input with files := paths } options accepted basePath
  | @compare input options sources corpus json accepted loaded =>
    exact @run_compare files { input with files := paths } options accepted sources corpus loaded
      json
  | @dupes input options accepted =>
    rw [Command.over, run, execute, inputOptions, accepted]
    rfl

theorem status_eq_zero_iff (outcome : Outcome) : outcome.status = 0 ↔ outcome.success = true := by
  rw [Outcome.status]
  split <;> simp [*]

/-- Whatever the others are, each input file of a command is printed, reported or left out. -/
theorem takes_each_file (ready : Ready files command work) : TakesEach files command work where
  outcome paths := ⟨_, _, collected files work paths, run_over ready paths⟩
  status paths := by
    rw [← no_failures_iff (collected files work paths), status_eq_zero_iff, run_over ready]
    exact List.isEmpty_iff
  excluded before path after named := by
    have cut := inputRecords_append files work.options work.before before
    rw [run_over ready, run_over ready, cut, cut, inputRecords_excluded named]
    exact ⟨rfl, rfl, rfl⟩
  failing before path after error named fails := by
    have cut := inputRecords_append files work.options work.before before
    have results : inputRecords files work.options work.before (before ++ path :: after) =
        inputRecords files work.options work.before before ++
          .error error :: inputRecords files work.options work.before after := by
      rw [cut, inputRecords_included named, fileRecords_of_fails fails]
    refine ⟨?_, ?_, ?_⟩
    · rw [run_over ready, run_over ready, results, cut]
      simp only [outcomeOf, recordsOf_append, recordsOf_error]
    · rw [run_over ready, run_over ready, run_over ready, results]
      simp only [outcomeOf, errorsOf_append, List.map_append]
      rfl
    · rw [run_over ready, results]
      simp [outcomeOf, Outcome.status, errorsOf]

def bareRun (paths : List String) : Outcome :=
  run bareFiles ((Command.hash bareInput "src").over paths)

theorem takes_each_file_bare :
    (bareRun ["vault.json"]).status = 0 ∧
      (bareRun ["vault.json", "gone.json", "mock.json"]).status = 1 ∧
      (bareRun ["vault.json", "gone.json", "mock.json"]).output =
        (bareRun ["vault.json"]).output ∧
      (bareRun ["vault.json", "gone.json", "mock.json"]).reports =
        (bareRun ["vault.json"]).reports ++ ["ERROR processing file: failed to read gone.json: " ++
          "No such file or directory (os error 2)"] := by
  have ready : Ready bareFiles (.hash bareInput "src") ⟨bothModes, basePrefix "src", entryLines⟩ :=
    .hash "src" rfl
  have law := takes_each_file ready
  have direct : contractsOf (vault "Bare\n\"vault\"" []) = .ok [vault "Bare\n\"vault\"" []] := rfl
  have gives := fingerprint_eq direct bothModes (some (basePrefix "src" ++ "vault.json"))
  have missing : Fails bareFiles bothModes (basePrefix "src") "gone.json"
      (.unreadable "gone.json" .notFound) := .unread rfl
  obtain ⟨output, reports, status⟩ :=
    law.failing ["vault.json"] "gone.json" [] _ (by decide) missing
  obtain ⟨sameOutput, sameReports, sameStatus⟩ :=
    law.excluded ["vault.json", "gone.json"] "mock.json" [] (by decide)
  refine ⟨(law.status ["vault.json"]).mpr ?_, sameStatus.trans status, sameOutput.trans output,
    sameReports.trans reports⟩
  intro path mem _
  rw [List.mem_singleton.mp mem]
  exact ⟨_, _, _, _, rfl, Json.read_render readsBack_bareVault, rfl, gives⟩

end Commands

end ContractTwins.CommandLine
