import ContractTwins.Files.Tree
import ContractTwins.Proofs.SourceContents

/-!
What a run on a shared corpus leaves and answers, in terms of what the sources hold and where they
fail. The files may be others at each load.
-/
namespace ContractTwins.SharedCorpus

open Text Entry

/-- What an operation adds to the entries of the corpus. A replacement adds to nothing. -/
inductive Operation.Adds : Operation → List Entry → Prop where
  | extend (entries : List Entry) : Adds (.extend entries) entries
  | loaded {files : Files} {source : Source} {entries : List Entry}
      (holds : source.Holds files entries) : Adds (.load files source) entries
  | failed {files : Files} {source : Source} {error : CorpusError}
      (fails : source.Fails files error) : Adds (.load files source) []
  | snapshot : Adds .snapshot []

structure Accounted (shared : SharedCorpus) (operations : List Operation) : Prop where
  unreplaced : (∀ operation ∈ operations, ¬operation.Replaces) →
    ∃ parts, List.Forall₂ Operation.Adds operations parts ∧
      (shared.run operations).1.current.entries = shared.current.entries ++ parts.flatten
  replaced : ∀ before entries after, operations = before ++ .replace entries :: after →
    (∀ operation ∈ after, ¬operation.Replaces) →
      ∃ parts, List.Forall₂ Operation.Adds after parts ∧
        (shared.run operations).1.current.entries = entries ++ parts.flatten
  decided : ∀ files source, .load files source ∈ operations →
    (∃ entries, source.Holds files entries) ∨ ∃ error, source.Fails files error
  loaded : ∀ before files source after entries,
    operations = before ++ .load files source :: after → source.Holds files entries →
      (shared.run operations).2[before.length]? = some (.ok entries.length) ∧
      (shared.run (before ++ [.load files source])).1 =
        { (shared.run before).1 with current := (shared.run before).1.current.extend entries }
  failed : ∀ before files source after error,
    operations = before ++ .load files source :: after → source.Fails files error →
      (shared.run operations).2[before.length]? = some (.error error) ∧
      (shared.run (before ++ [.load files source])).1 = (shared.run before).1
  snapshot : ∀ before after, operations = before ++ .snapshot :: after →
    (shared.run operations).1.snapshots[(shared.run before).1.snapshots.length]? =
      some (shared.run before).1.current
  begins : ∀ before after, operations = before ++ .snapshot :: after →
    (∀ operation ∈ after, ¬operation.Replaces) →
      (shared.run before).1.current.entries <+: (shared.run operations).1.current.entries

theorem adds_added {operation : Operation} (grows : ¬operation.Replaces) :
    operation.Adds operation.added := by
  cases operation with
  | extend entries => exact .extend entries
  | replace entries => exact absurd trivial grows
  | load files source =>
    cases read : source.entries files with
    | ok entries =>
      rw [Operation.added, read]
      exact .loaded (Source.entries_eq_ok_iff.mp read)
    | error error =>
      rw [Operation.added, read]
      exact .failed (Source.entries_eq_error_iff.mp read)
  | snapshot => exact .snapshot

theorem added_of_adds {operation : Operation} {entries : List Entry}
    (adds : operation.Adds entries) : operation.added = entries := by
  cases adds with
  | extend => rfl
  | loaded holds =>
    rw [Operation.added, Source.entries_of_holds holds]
    rfl
  | failed fails =>
    rw [Operation.added, Source.entries_of_fails fails]
    rfl
  | snapshot => rfl

theorem adds_unique {operations : List Operation} {parts others : List (List Entry)}
    (adds : List.Forall₂ Operation.Adds operations parts)
    (alike : List.Forall₂ Operation.Adds operations others) : parts = others := by
  have unique : Relator.RightUnique Operation.Adds := fun _ _ _ first second =>
    (added_of_adds first).symm.trans (added_of_adds second)
  exact List.right_unique_forall₂' unique adds alike

variable {shared : SharedCorpus}

theorem entries_run_adds {operations : List Operation}
    (grow : ∀ operation ∈ operations, ¬operation.Replaces) :
    ∃ parts, List.Forall₂ Operation.Adds operations parts ∧
      (shared.run operations).1.current.entries = shared.current.entries ++ parts.flatten := by
  refine ⟨operations.map Operation.added, ?_, ?_⟩
  · rw [List.forall₂_map_right_iff, List.forall₂_same]
    exact fun operation mem => adds_added (grow operation mem)
  · rw [entries_run grow, List.flatMap_def]

theorem accounted_run (shared : SharedCorpus) (operations : List Operation) :
    Accounted shared operations where
  unreplaced := entries_run_adds
  replaced := by
    rintro before entries after rfl grow
    rw [(run_middle before _ after).1]
    exact entries_run_adds grow
  decided files source _ := Source.holds_or_fails files source
  loaded := by
    rintro before files source after entries rfl holds
    exact run_of_step (step_load_ok (shared.run before).1 (Source.entries_of_holds holds))
  failed := by
    rintro before files source after error rfl fails
    exact run_of_step (step_load_error (shared.run before).1 (Source.entries_of_fails fails))
  snapshot := by
    rintro before after rfl
    exact snapshot_run before after
  begins := by
    rintro before after rfl grow
    rw [(run_middle before _ after).1, entries_run grow]
    exact List.prefix_append _ _

/-- A directory that loads, and one of the same listing whose second file may not be read. -/
def stock : Files :=
  let purses : FileTree := .directory [("b.json", .file (stored [plainEntry])),
    ("a.json", .file (stored [oddEntry])), ("notes", .file brokenContent)]
  let files := (FileTree.directory [("open", purses), ("locked", purses)]).files []
  { files with
    read path := if path = "locked/b.json" then .error .denied else files.read path }

theorem inOrder_stock {directory : Path} (known : directory ∈ [("open" : Path), "locked"]) :
    InNameOrder (Eligible stock directory) ["b.json", "a.json", "notes"]
      ["a.json", "b.json"] := by
  have perm : ∀ directory ∈ [("open" : Path), "locked"],
      [("a.json" : Path), "b.json"].Perm
        ([("b.json" : Path), "a.json", "notes"].filter fun name =>
          stock.isFile (directory.join name) && isCorpusName name) := by decide
  exact inNameOrder_of_perm (fun _ => isCorpusFile_iff) (perm directory known) (by decide)

theorem holds_open : Source.Holds stock (.any "open") [oddEntry, plainEntry] := by
  have first : FileHolds stock (Path.join "open" "a.json") [oddEntry] := fileHolds_stored rfl
  have second : FileHolds stock (Path.join "open" "b.json") [plainEntry] := fileHolds_stored rfl
  exact .anyDirectory (by decide)
    (.directory rfl (inOrder_stock (by decide)) (.cons first (.cons second .nil)))

theorem fails_locked :
    Source.Fails stock (.directory "locked") (.unreadable "locked/b.json" .denied) := by
  have first : FileHolds stock (Path.join "locked" "a.json") [oddEntry] := fileHolds_stored rfl
  have second : FileFails stock (Path.join "locked" "b.json")
      (.unreadable (Path.join "locked" "b.json").text .denied) := .unread rfl
  have named : (Path.join "locked" "b.json").text = "locked/b.json" :=
    Path.text_ofText "locked/b.json"
  rw [named] at second
  exact .directory rfl (inOrder_stock (by decide))
    ⟨["a.json"], "b.json", [], [[oddEntry]], rfl, .cons first .nil, second⟩

def refill : List Operation :=
  [.load stock (.any "gone"), .load stock (.directory "locked"),
    .load stock (.stream "pipe" brokenContent), .snapshot, .replace [], .load stock (.any "open"),
    .extend [plainEntry], .load stock (.stream "pipe" purseContent)]

theorem accounted_run_refill :
    (onePurse.run refill).1.current.entries = [oddEntry, plainEntry, plainEntry, plainEntry] ∧
      (onePurse.run refill).2[0]? = some (.error (.unreadable "gone" .notFound)) ∧
      (onePurse.run refill).2[1]? = some (.error (.unreadable "locked/b.json" .denied)) ∧
      (∃ fault, (onePurse.run refill).2[2]? = some (.error (.badEntry "pipe" 1 "x" fault))) ∧
      (onePurse.run refill).2[5]? = some (.ok 2) ∧
      (onePurse.run refill).2[7]? = some (.ok 1) ∧
      (onePurse.run refill).1.snapshots[0]? = some ⟨[plainEntry]⟩ := by
  have account : Accounted onePurse refill := accounted_run onePurse refill
  have stream : Source.Holds stock (.stream "pipe" purseContent) [plainEntry] :=
    .stream (textHolds_of_laidOut (laidOut_unlines [plainEntry]))
  have gone : Source.Fails stock (.any "gone") (.unreadable "gone" .notFound) := by
    have unread : FileFails stock "gone" (.unreadable (Path.text "gone") .notFound) := .unread rfl
    rw [Path.text_ofText] at unread
    exact .anyFile (by decide) (.file unread)
  obtain ⟨error, first⟩ := exists_firstFailure "pipe" not_isUtf8_brokenContent
  obtain ⟨fault, rfl⟩ := firstFailure_brokenContent first
  refine ⟨?_, ?_, ?_, ⟨fault, ?_⟩, ?_, ?_, ?_⟩
  · have grow : ∀ operation ∈ refill.drop 5, ¬operation.Replaces := by
      simp [refill, Operation.Replaces]
    obtain ⟨parts, adds, final⟩ := account.replaced (refill.take 4) [] (refill.drop 5) rfl grow
    have known : List.Forall₂ Operation.Adds (refill.drop 5)
        [[oddEntry, plainEntry], [plainEntry], [plainEntry]] :=
      .cons (.loaded holds_open) (.cons (.extend _) (.cons (.loaded stream) .nil))
    rw [final, adds_unique adds known]
    rfl
  · exact (account.failed [] stock _ _ _ rfl gone).1
  · exact (account.failed (refill.take 1) stock _ _ _ rfl fails_locked).1
  · exact (account.failed (refill.take 2) stock _ _ _ rfl (.stream first)).1
  · exact (account.loaded (refill.take 5) stock _ _ _ rfl holds_open).1
  · exact (account.loaded (refill.take 7) stock _ _ _ rfl stream).1
  · have kept : (onePurse.run (refill.take 3)).1 = onePurse := by
      have one := (account.failed [] stock _ _ _ rfl gone).2
      have two := (account.failed (refill.take 1) stock _ _ _ rfl fails_locked).2
      have three := (account.failed (refill.take 2) stock _ _ _ rfl (.stream first)).2
      exact three.trans (two.trans one)
    have taken := account.snapshot (refill.take 3) _ rfl
    rwa [kept] at taken

end ContractTwins.SharedCorpus
