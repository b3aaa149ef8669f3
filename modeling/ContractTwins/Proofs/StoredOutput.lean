import ContractTwins.CommandLine.Run
import ContractTwins.Files.Tree
import ContractTwins.Proofs.ContractRecords
import ContractTwins.Proofs.Matching
import ContractTwins.Proofs.SourceContents

/-!
What `hash` prints is a corpus. Each line is read back as the entry that was printed, and each
contract has the digests in a comparison that it had when they were printed. The input files must
not change between the two runs; the corpus may be stored anywhere.
-/
namespace ContractTwins.CommandLine

open Syntax

section Inputs

variable {files later : Files} {options : Options} {paths : List String}

theorem readDocument_congr {path : String} (same : later.read path = files.read path) :
    readDocument later path = readDocument files path := by
  rw [readDocument, readDocument, readText, readText, same]

theorem readDocument_of_text {path text : String} {json : Json} {document : Node}
    (held : files.read path = .ok (Text.bytes text)) (read : Json.read text = .ok json)
    (lifted : lift json = .ok document) : readDocument files path = .ok document := by
  have whole : readText files path = .ok text := by
    simp only [readText, held, Text.ofBytes?_bytes]
  simp only [readDocument, whole, read, lifted]

theorem inputRecords_congr (before : String)
    (same : ∀ path ∈ paths, later.read path = files.read path) :
    inputRecords later options before paths = inputRecords files options before paths := by
  apply List.map_congr_left
  intro path mem
  have kept := readDocument_congr (same path (List.mem_filter.mp mem).1)
  rw [fileRecords, fileRecords, kept]

theorem mem_recordsOf {results : List (Except FileError (List Record))} {record : Record} :
    record ∈ recordsOf results ↔ ∃ records, .ok records ∈ results ∧ record ∈ records := by
  simp only [recordsOf, List.mem_flatten, List.mem_filterMap]
  constructor
  · rintro ⟨records, ⟨result, mem, succeeds⟩, inside⟩
    cases result with
    | error error => cases succeeds
    | ok taken =>
      cases succeeds
      exact ⟨_, mem, inside⟩
  · rintro ⟨records, mem, inside⟩
    exact ⟨records, ⟨_, mem, rfl⟩, inside⟩

theorem mem_inputRecords (before : String) {path : String} (named : path ∈ paths)
    (included : isExcluded path = false) {document : Node}
    (read : readDocument files path = .ok document) {contracts : List Node}
    (direct : contractsOf document = .ok contracts) {contract : Node} (mem : contract ∈ contracts)
    {mode : Mode} (requested : mode ∈ options.modes) :
    recordOf ⟨options.algorithm, mode⟩ (some (before ++ path)) contract ∈
      recordsOf (inputRecords files options before paths) := by
  have taken := fingerprint_eq direct options (some (before ++ path))
  refine mem_recordsOf.mpr ⟨_, List.mem_map.mpr ⟨path, ?_, ?_⟩,
    mem_fingerprint taken direct mem requested⟩
  · simp [named, included]
  · rw [fileRecords, read]
    simp only [taken]

end Inputs

section Commands

variable {files : Files} {input : Input} {options : Options}

theorem run_hash (accepted : Options.parse input.algorithm input.modes = .ok options)
    (basePath : String) :
    run files (.hash input basePath) =
      outcomeOf (inputRecords files options (basePrefix basePath) input.files)
        (entryLines (recordsOf (inputRecords files options (basePrefix basePath) input.files))) := by
  rw [run, execute, inputOptions, accepted]
  rfl

theorem run_compare (accepted : Options.parse input.algorithm input.modes = .ok options)
    {sources : List String} {corpus : Corpus}
    (loaded : Corpus.empty.loadAll files (sources.map fun source => .any (.ofText source)) =
      .ok corpus) (json : Bool) :
    run files (.compare input sources json) =
      let results := inputRecords files options "" input.files
      let found := Results.empty.addRecords corpus.entries (recordsOf results)
      outcomeOf results (if json then [found.toJson.renderPretty] else matchLines found) := by
  rw [run, execute, inputOptions, accepted, loaded]
  rfl

theorem loadAll_entryLines {source : Path} {records : List Record}
    (plain : files.kind? source ≠ some .directory)
    (stored : files.read source = .ok (Text.bytes (Text.unlines (entryLines records)))) :
    Corpus.empty.loadAll files [.any source] = .ok ⟨records.map Record.toEntry⟩ := by
  have lines : Text.bytes (Text.unlines (entryLines records)) =
      Entry.stored (records.map Record.toEntry) := by
    rw [Entry.stored, List.map_map]
    rfl
  have read : (Source.any source).entries files = .ok (records.map Record.toEntry) := by
    rw [Source.entries_any_of_file plain, Source.entries]
    exact Entry.ofFile_stored (stored.trans (congrArg _ lines))
  rw [Corpus.loadAll, List.foldlM_cons, Corpus.load, read]
  rfl

end Commands

theorem mem_matching_toEntry {records : List Record} {options : HashOptions}
    {stored path : Option String} {contract : Node}
    (mem : recordOf options stored contract ∈ records) :
    (recordOf options stored contract).toEntry ∈
      Results.matching (recordOf options path contract) (records.map Record.toEntry) :=
  Results.mem_matching.mpr ⟨List.mem_map_of_mem mem, rfl, rfl⟩

theorem found_again {files : Files} {options : Options} {before path : String}
    {paths : List String} (named : path ∈ paths) (included : isExcluded path = false)
    {document : Node} (read : readDocument files path = .ok document) {contracts : List Node}
    (direct : contractsOf document = .ok contracts) {contract : Node} (mem : contract ∈ contracts) :
    ∃ group,
      (Results.empty.addRecords
        ((recordsOf (inputRecords files options before paths)).map Record.toEntry)
        (recordsOf (inputRecords files options "" paths))).get? path (contract.textAt "name") =
          some group ∧
      ∀ mode ∈ options.modes,
        (recordOf ⟨options.algorithm, mode⟩ (some (before ++ path)) contract).toEntry ∈
          group.found := by
  have gathered := Results.gathered_addRecords Results.gathered_empty
    ((recordsOf (inputRecords files options before paths)).map Record.toEntry)
    (recordsOf (inputRecords files options "" paths))
  rw [List.nil_append] at gathered
  generalize Results.addRecords _ _ _ = found at gathered ⊢
  have listed : ∀ mode ∈ options.modes,
      (recordOf ⟨options.algorithm, mode⟩ (some (before ++ path)) contract).toEntry ∈
        Results.foundUnder ⟨path, contract.textAt "name"⟩
          ((recordsOf (inputRecords files options "" paths)).map fun record =>
            (record, (recordsOf (inputRecords files options before paths)).map Record.toEntry)) := by
    intro mode requested
    have known := mem_inputRecords before named included read direct mem requested
    have probe := mem_inputRecords "" named included read direct mem requested
    refine Results.mem_foundUnder.mpr ⟨_, List.mem_map_of_mem probe, ?_, ?_⟩
    · simp [MatchKey.ofRecord, recordOf, Record.name, Model.ofContract]
    · exact mem_matching_toEntry known
  cases present : found.groups.lookup ⟨path, contract.textAt "name"⟩ with
  | none =>
    obtain ⟨mode, requested⟩ := List.exists_mem_of_ne_nil _ options.modes_ne_nil
    have nothing := (Results.lookup_eq_none_iff gathered).mp present
    exact absurd (listed mode requested) (by simp [nothing])
  | some group =>
    obtain ⟨-, all⟩ := Results.found_of_lookup gathered present
    rw [← all] at listed
    exact ⟨group, present, listed⟩

/-- The output of `hash`, stored as a corpus, is loaded line by line, and `compare` finds every
contract of the files in it. -/
theorem compare_stored_output {files later : Files} {input : Input} {options : Options}
    {basePath source : String}
    (accepted : Options.parse input.algorithm input.modes = .ok options)
    (same : ∀ path ∈ input.files, later.read path = files.read path)
    (plain : later.kind? source ≠ some .directory)
    (stored : later.read source = .ok (Text.bytes
      (Text.unlines (run files (.hash input basePath)).output))) :
    ∃ corpus found,
      Corpus.empty.loadAll later [.any source] = .ok corpus ∧
      (run files (.hash input basePath)).output =
        corpus.entries.map (fun entry => entry.toJson.render) ∧
      (∀ line ∈ (run files (.hash input basePath)).output, '\n' ∉ line.toList) ∧
      (∀ json, run later (.compare input [source] json) =
        outcomeOf (inputRecords later options "" input.files)
          (if json then [found.toJson.renderPretty] else matchLines found)) ∧
      ∀ path ∈ input.files, isExcluded path = false → ∀ document contracts,
        readDocument files path = .ok document → contractsOf document = .ok contracts →
        ∀ contract ∈ contracts, ∃ group,
          found.get? path (contract.textAt "name") = some group ∧
          ∀ mode ∈ options.modes, ∃ entry ∈ group.found,
            entry.name = contract.textAt "name" ∧
            Record.digest contract ⟨options.algorithm, mode⟩ = .ok entry.hash ∧
            entry.options = .ofOptions ⟨options.algorithm, mode⟩ ∧
            entry.path = some (basePrefix basePath ++ path) := by
  have printed : (run files (.hash input basePath)).output =
      entryLines (recordsOf (inputRecords files options (basePrefix basePath) input.files)) := by
    rw [run_hash accepted]
    rfl
  rw [printed] at stored ⊢
  have loaded := loadAll_entryLines plain stored
  refine ⟨_, _, loaded, ?_, ?_, run_compare accepted loaded, ?_⟩
  · rw [entryLines, List.map_map]
    rfl
  · intro line mem
    obtain ⟨record, -, rfl⟩ := List.mem_map.mp mem
    exact Entry.newline_not_mem_render _
  · intro path named included document contracts read direct contract mem
    rw [inputRecords_congr "" same]
    obtain ⟨group, present, listed⟩ := found_again named included read direct mem
    refine ⟨group, present, fun mode requested => ⟨_, listed mode requested, rfl, ?_, rfl, rfl⟩⟩
    exact Record.digest_eq (isContract_of_direct direct contract mem) _

def bareVault : Json :=
  .object [("baseContracts", .list []), ("kind", .text "contract"), ("name", .text "Bare\n\"vault\""),
    ("subNodes", .list []), ("type", .text "ContractDefinition")]

def bareFiles : Files :=
  (FileTree.directory [("vault.json", .file (Text.bytes bareVault.render))]).files []

def bareInput : Input := ⟨["gone.json", "vault.json"], "AST_EXACT,AST_STRUCTURE", "sha256"⟩

def bothModes : Options := ⟨.sha256, [.exact, .structural], by decide, by decide⟩

/-- The same file, and what `hash` prints for it. -/
def storedFiles : Files :=
  FileTree.files [] (.directory [("vault.json", .file (Text.bytes bareVault.render)),
    ("corpus", .file
      (Text.bytes (Text.unlines (run bareFiles (.hash bareInput "src")).output)))])

theorem readsBack_bareVault : Json.ReadsBack Json.depthLimit bareVault := by
  refine Json.readsBack_object ?_ ?_
  · simp only [SortedMap.Ascending]
    decide
  · simp [Json.readsBack_text, Json.readsBack_nil]

theorem readDocument_bareFiles :
    readDocument bareFiles "vault.json" = .ok (vault "Bare\n\"vault\"" []) :=
  readDocument_of_text rfl (Json.read_render readsBack_bareVault) rfl

theorem compare_stored_bareVault :
    ∃ found group,
      (∀ json, run storedFiles (.compare bareInput ["corpus"] json) =
        outcomeOf (inputRecords storedFiles bothModes "" bareInput.files)
          (if json then [found.toJson.renderPretty] else matchLines found)) ∧
      found.get? "vault.json" "Bare\n\"vault\"" = some group ∧
      ∃ entry ∈ group.found, entry.name = "Bare\n\"vault\"" ∧
        entry.path = some "src/vault.json" ∧ entry.options = .ofOptions ⟨.sha256, .structural⟩ := by
  have accepted : Options.parse bareInput.algorithm bareInput.modes = .ok bothModes := rfl
  have same : ∀ path ∈ bareInput.files, storedFiles.read path = bareFiles.read path := by
    simp only [bareInput, List.forall_mem_cons]
    exact ⟨rfl, rfl, by simp⟩
  have stored : storedFiles.read "corpus" = .ok (Text.bytes
      (Text.unlines (run bareFiles (.hash bareInput "src")).output)) := rfl
  have place : basePrefix "src" ++ "vault.json" = "src/vault.json" := by decide +kernel
  obtain ⟨corpus, found, -, -, -, compared, finds⟩ :=
    compare_stored_output accepted same (by decide) stored
  have direct : contractsOf (vault "Bare\n\"vault\"" []) = .ok [vault "Bare\n\"vault\"" []] := rfl
  have title : (vault "Bare\n\"vault\"" []).textAt "name" = "Bare\n\"vault\"" := rfl
  obtain ⟨group, present, each⟩ := finds "vault.json" (by decide) (by decide) _ _
    readDocument_bareFiles direct _ List.mem_cons_self
  obtain ⟨entry, mem, name, -, options, path⟩ := each .structural (by decide)
  rw [place] at path
  rw [title] at present name
  exact ⟨found, group, compared, present, entry, mem, name, path, options⟩

end ContractTwins.CommandLine
