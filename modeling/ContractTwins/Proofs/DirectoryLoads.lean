import ContractTwins.Proofs.ListedFiles

/-!
What the system shows to be a corpus file is taken in the order of the names, and all of it is read
before anything is added. A file whose path leads nowhere is passed over, even if the directory
lists it; this is not what a reader of a directory would expect.
-/
namespace ContractTwins

open Text

def CorpusFile (regular : Path → Prop) (name : Path) : Prop :=
  regular name ∧ HasExtension "json" name

namespace SharedCorpus

open Entry

/-- A directory is loaded as its chosen files are: all of them, or none. -/
structure LoadsDirectory (shared : SharedCorpus) (files : Files) (path : Path)
    (chosen : List Path) : Prop where
  decided : (∃ parts, EachHolds files path chosen parts) ∨
    ∃ error, FirstFails files path chosen error
  whole : ∀ parts, EachHolds files path chosen parts →
    shared.step (.load files (.directory path)) =
      (.ok parts.flatten.length, { shared with current := shared.current.extend parts.flatten })
  /-- One after the other they leave the same. -/
  oneByOne : ∀ parts, EachHolds files path chosen parts →
    shared.run (chosen.map fun name => .load files (.file (path.join name))) =
      ((shared.step (.load files (.directory path))).2, parts.map fun part => .ok part.length)
  failed : ∀ error, FirstFails files path chosen error →
    shared.step (.load files (.directory path)) = (.error error, shared)

section Ordering

variable {files : Files} {path : Path} {listing chosen : List Path}

theorem inNameOrder_congr {eligible wanted : Path → Prop}
    (same : ∀ name ∈ listing, eligible name ↔ wanted name)
    (order : InNameOrder eligible listing chosen) : InNameOrder wanted listing chosen where
  only name mem := by
    have eligible := order.only name mem
    have listed : name ∈ listing := by
      rw [← List.count_pos_iff, ← order.all name eligible]
      exact List.count_pos_iff.mpr mem
    exact (same name listed).mp eligible
  all name wanted := by
    by_cases listed : name ∈ listing
    · exact order.all name ((same name listed).mpr wanted)
    · have absent : name ∉ chosen := by
        intro mem
        have counted := order.all name (order.only name mem)
        rw [List.count_eq_zero.mpr listed] at counted
        exact List.count_eq_zero.mp counted mem
      rw [List.count_eq_zero.mpr listed, List.count_eq_zero.mpr absent]
  ascending := order.ascending

theorem inNameOrder_perm {eligible : Path → Prop} {relisted : List Path}
    (perm : listing.Perm relisted) (order : InNameOrder eligible relisted chosen) :
    InNameOrder eligible listing chosen where
  only := order.only
  all name eligible := (order.all name eligible).trans (perm.count_eq name).symm
  ascending := order.ascending

theorem inNameOrder_of_shown {regular : Path → Prop} (shown : Shown files path listing regular)
    (order : InNameOrder (Eligible files path) listing chosen) :
    InNameOrder (CorpusFile regular) listing chosen :=
  inNameOrder_congr (fun name mem => and_congr_left fun extension => shown name mem extension) order

end Ordering

section Loading

variable {files other : Files} {path : Path} {listing chosen : List Path}

theorem run_loads (shared : SharedCorpus) {parts : List (List Entry)}
    (each : EachHolds files path chosen parts) :
    shared.run (chosen.map fun name => .load files (.file (path.join name))) =
      ({ shared with current := shared.current.extend parts.flatten },
        parts.map fun part => .ok part.length) := by
  induction each generalizing shared with
  | nil => simp [run, Corpus.extend]
  | @cons name part rest later holds _ ih =>
    rw [List.map_cons, run_cons, step_load_ok shared (Source.entries_of_holds (.file holds)), ih]
    simp [Corpus.extend]

theorem loadsDirectory_of_inNameOrder (shared : SharedCorpus)
    (listed : files.list path = .ok listing)
    (order : InNameOrder (Eligible files path) listing chosen) :
    LoadsDirectory shared files path chosen := by
  have whole : ∀ parts, EachHolds files path chosen parts →
      shared.step (.load files (.directory path)) =
        (.ok parts.flatten.length,
          { shared with current := shared.current.extend parts.flatten }) := fun parts each =>
    step_load_ok shared (Source.entries_of_holds (.directory listed order each))
  refine ⟨eachHolds_or_firstFails files path chosen, whole, ?_, ?_⟩
  · intro parts each
    rw [whole parts each]
    exact run_loads shared each
  · intro error fails
    exact step_load_error shared (Source.entries_of_fails (.directory listed order fails))

theorem step_relisted (shared : SharedCorpus) (listed : files.list path = .ok listing)
    {relisted : List Path} (again : other.list path = .ok relisted)
    (perm : listing.Perm relisted)
    (alike : ∀ name ∈ listing, other.kind? (path.join name) = files.kind? (path.join name) ∧
      other.read (path.join name) = files.read (path.join name)) :
    shared.step (.load other (.directory path)) = shared.step (.load files (.directory path)) := by
  have order := inNameOrder_corpusFiles files path listing
  have reorder : InNameOrder (Eligible files path) listing (corpusFiles other path relisted) := by
    refine inNameOrder_congr (fun name mem => ?_)
      (inNameOrder_perm perm (inNameOrder_corpusFiles other path relisted))
    rw [Eligible, Eligible, (alike name mem).1]
  have chosen := inNameOrder_unique reorder order
  have same : (Source.directory path).entries other = (Source.directory path).entries files := by
    rw [Source.entries, Source.entries, ofDirectory, ofDirectory, listed, again]
    simp only [chosen]
    rw [Outcome.mapM_congr fun name mem => ?_]
    have inListing : name ∈ listing := (List.mem_filter.mp (List.mem_mergeSort.mp mem)).1
    rw [ofFile, ofFile, (alike name inListing).2]
  rw [step_load, step_load, Corpus.load, Corpus.load, same]

/-- The corpus files that the system shows in a directory are loaded in the order of their names. -/
theorem loads_directory (shared : SharedCorpus) {regular : Path → Prop}
    (listed : files.list path = .ok listing) (shown : Shown files path listing regular) :
    (∃ chosen, InNameOrder (CorpusFile regular) listing chosen) ∧
      (∀ chosen, InNameOrder (CorpusFile regular) listing chosen →
        LoadsDirectory shared files path chosen) ∧
      ∀ other relisted, other.list path = .ok relisted → listing.Perm relisted →
        (∀ name ∈ listing, other.kind? (path.join name) = files.kind? (path.join name) ∧
          other.read (path.join name) = files.read (path.join name)) →
        shared.step (.load other (.directory path)) =
          shared.step (.load files (.directory path)) := by
  have order := inNameOrder_of_shown shown (inNameOrder_corpusFiles files path listing)
  refine ⟨⟨_, order⟩, fun chosen inOrder => ?_, fun other relisted => ?_⟩
  · rw [inNameOrder_unique inOrder order]
    exact loadsDirectory_of_inNameOrder shared listed (inNameOrder_corpusFiles files path listing)
  · exact step_relisted shared listed

def oneDirectory (name : Path) (entries : List (Path × FileTree)) : Files :=
  FileTree.files [] (.directory [(name, .directory entries)])

/-- Two corpus files, and what is none, though it is named like one or holds the same. -/
def mixedEntries : List (Path × FileTree) :=
  [("b.json", .file (stored [plainEntry])), (".json", .file (stored [])),
    ("c.json.bak", .file brokenContent), ("a.json", .file (stored [oddEntry, plainEntry])),
    ("c.json", .directory [])]

def mixedFiles : Files := oneDirectory "mixed" mixedEntries

theorem loads_directory_mixed :
    mixedFiles.list "mixed/" = .ok ["b.json", ".json", "c.json.bak", "a.json", "c.json"] ∧
      (Shown mixedFiles "mixed/" ["b.json", ".json", "c.json.bak", "a.json", "c.json"]
        fun name => ∃ content, (name, .file content) ∈ mixedEntries) ∧
      ∀ shared : SharedCorpus,
        shared.step (.load mixedFiles (.directory "mixed/")) =
        (.ok 3,
          { shared with current := shared.current.extend [oddEntry, plainEntry, plainEntry] }) := by
  have listed : mixedFiles.list "mixed/" =
      .ok ["b.json", ".json", "c.json.bak", "a.json", "c.json"] := rfl
  have short : ∀ entry ∈ mixedEntries,
      (Path.join "mixed/" entry.1).bytes.length ≤ FileTree.pathLimit := by decide
  have shown : Shown mixedFiles "mixed/" (mixedEntries.map Prod.fst)
      fun name => ∃ content, (name, .file content) ∈ mixedEntries :=
    FileTree.shown_files rfl (by decide) (by decide) fun entry mem _ => short entry mem
  have order : InNameOrder (Eligible mixedFiles "mixed/")
      ["b.json", ".json", "c.json.bak", "a.json", "c.json"] ["a.json", "b.json"] :=
    inNameOrder_of_perm (fun _ => isCorpusFile_iff) (by decide) (by decide)
  refine ⟨listed, shown, fun shared => ?_⟩
  obtain ⟨-, loads, -⟩ := loads_directory shared listed shown
  have first : FileHolds mixedFiles (Path.join "mixed/" "a.json") [oddEntry, plainEntry] :=
    fileHolds_stored rfl
  have second : FileHolds mixedFiles (Path.join "mixed/" "b.json") [plainEntry] :=
    fileHolds_stored rfl
  exact (loads _ (inNameOrder_of_shown shown order)).whole [_, _] (.cons first (.cons second .nil))

/-- A corpus file whose path is one byte too long. -/
def deepEntries : List (Path × FileTree) := [("a.json", .file (stored [plainEntry]))]

def deepFiles : Files := oneDirectory "d" deepEntries

def deepPath : Path := FileTree.slashed "d" 4089

theorem list_deep : deepFiles.list deepPath = .ok ["a.json"] := by
  have one : (Path.ofText "d").bytes.length = 1 := rfl
  have fits : (Path.ofText "d").bytes.length + 4089 ≤ FileTree.pathLimit := by
    rw [one, FileTree.pathLimit]
    omega
  have found : FileTree.look [] (.directory [("d", .directory deepEntries)]) deepPath =
      .ok (.directory deepEntries) := FileTree.look_slashed (by decide) fits
  rw [deepFiles, oneDirectory, FileTree.list_files found]
  rfl

theorem unreached_deep :
    deepFiles.kind? (deepPath.join "a.json") = none ∧
      deepFiles.read (deepPath.join "a.json") = .error .nameTooLong := by
  have written : 0 ∉ deepPath.bytes := FileTree.written_slashed (by decide) 4089
  have long := FileTree.length_join deepPath "a.json"
  have six : (Path.ofText "a.json").bytes.length = 6 := rfl
  have one : (Path.ofText "d").bytes.length = 1 := rfl
  rw [deepPath, FileTree.length_slashed, six, one] at long
  rw [deepFiles, oneDirectory]
  exact FileTree.files_of_error
    (FileTree.look_of_long (FileTree.written_join written (by decide)) long)

/-- A file that cannot be reached is passed over, although it is listed and holds an entry. Loaded
by the same path, it is reported. -/
theorem unreached_passed_over :
    deepFiles.list deepPath = .ok ["a.json"] ∧
      deepFiles.read "d/a.json" = .ok (stored [plainEntry]) ∧
      onePurse.step (.load deepFiles (.directory deepPath)) = (.ok 0, onePurse) ∧
      onePurse.step (.load deepFiles (.file (deepPath.join "a.json"))) =
        (.error (.unreadable (deepPath.join "a.json").text .nameTooLong), onePurse) ∧
      ¬∃ chosen, LoadsDirectory onePurse deepFiles deepPath chosen ∧
        InNameOrder (CorpusFile fun name => ∃ content, (name, .file content) ∈ deepEntries)
          ["a.json"] chosen := by
  obtain ⟨unseen, unread⟩ := unreached_deep
  have passedOver : InNameOrder (Eligible deepFiles deepPath) ["a.json"] [] :=
    inNameOrder_of_perm (fun _ => isCorpusFile_iff)
      (by simp [List.filter, Files.isFile, unseen]) .nil
  have nothing : onePurse.step (.load deepFiles (.directory deepPath)) = (.ok 0, onePurse) :=
    (loadsDirectory_of_inNameOrder onePurse list_deep passedOver).whole [] .nil
  have fails : FileFails deepFiles (deepPath.join "a.json")
      (.unreadable (deepPath.join "a.json").text .nameTooLong) := .unread unread
  refine ⟨list_deep, rfl, nothing,
    step_load_error onePurse (Source.entries_of_fails (.file fails)), ?_⟩
  rintro ⟨chosen, loads, inOrder⟩
  have all : InNameOrder (CorpusFile fun name => ∃ content, (name, .file content) ∈ deepEntries)
      ["a.json"] ["a.json"] := by
    refine ⟨fun name mem => ?_, fun _ _ => rfl, List.pairwise_singleton _ _⟩
    rw [List.mem_singleton.mp mem]
    exact ⟨⟨_, List.mem_singleton_self _⟩, isCorpusName_iff.mp (by decide)⟩
  rw [inNameOrder_unique inOrder all] at loads
  have reported := loads.failed _ ⟨[], _, [], [], rfl, .nil, fails⟩
  rw [nothing] at reported
  cases reported

end Loading

end SharedCorpus

end ContractTwins
