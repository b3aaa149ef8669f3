import ContractTwins.Proofs.CorpusRuns
import ContractTwins.Proofs.Outcomes
import ContractTwins.Proofs.SessionRuns
import Mathlib.Data.List.Perm.Basic

/-!
A record has a match or none whatever the order of the corpus is, so the records that begin the
groups are the same, and within a group only the order of the matches may differ. Loads that fail
may stand anywhere in a run, but not in a list of sources that is loaded as a whole.
-/
namespace ContractTwins

def MatchGroup.Alike (a b : MatchGroup) : Prop := a.target = b.target ∧ a.found.Perm b.found

theorem MatchGroup.alike_refl (group : MatchGroup) : group.Alike group := ⟨rfl, .refl _⟩

namespace Results

/-- The keys and the targets of the results are the same, and the matches under a key are, in some
order. -/
structure SameMatches (a b : Results) : Prop where
  keys : a.groups.map Prod.fst = b.groups.map Prod.fst
  targets : ∀ key, (a.groups.lookup key).map MatchGroup.target =
    (b.groups.lookup key).map MatchGroup.target
  found : ∀ key group other, a.groups.lookup key = some group → b.groups.lookup key = some other →
    group.found.Perm other.found ∧ group.found.length = other.found.length

section Reordered

variable {a b : Results} {entries others : List Entry}

theorem related_add (same : SortedMap.Related MatchGroup.Alike a.groups b.groups)
    (target : Record) (perm : entries.Perm others) :
    SortedMap.Related MatchGroup.Alike (a.add target entries).groups (b.add target others).groups := by
  apply SortedMap.related_alter _ _ same
  intro held other alike
  cases alike with
  | none => exact ⟨rfl, perm⟩
  | some alike => exact ⟨alike.1, alike.2.append perm⟩

theorem related_addMatches (same : SortedMap.Related MatchGroup.Alike a.groups b.groups)
    (perm : entries.Perm others) (record : Record) :
    SortedMap.Related MatchGroup.Alike (addMatches entries a record).groups
      (addMatches others b record).groups := by
  have matches_perm : (matching record entries).Perm (matching record others) := perm.filter _
  by_cases nothing : matching record entries = []
  · have neither : matching record others = [] := by
      rw [nothing] at matches_perm
      exact matches_perm.nil_eq.symm
    rw [addMatches_of_none a entries record nothing, addMatches_of_none b others record neither]
    exact same
  · have both : matching record others ≠ [] := by
      intro empty
      rw [empty] at matches_perm
      exact nothing matches_perm.eq_nil
    rw [addMatches_of_some a entries record nothing, addMatches_of_some b others record both]
    exact related_add same record matches_perm

theorem related_addRecords (same : SortedMap.Related MatchGroup.Alike a.groups b.groups)
    (perm : entries.Perm others) (records : List Record) :
    SortedMap.Related MatchGroup.Alike (a.addRecords entries records).groups
      (b.addRecords others records).groups := by
  rw [addRecords_eq_foldl, addRecords_eq_foldl]
  -- From the first match on the two results are not equal, but they stay alike.
  induction records generalizing a b with
  | nil => exact same
  | cons record rest ih =>
    rw [List.foldl_cons, List.foldl_cons]
    exact ih (related_addMatches same perm record)

theorem sameMatches_of_related (same : SortedMap.Related MatchGroup.Alike a.groups b.groups) :
    SameMatches a b := by
  have under := SortedMap.lookup_of_related same
  refine ⟨SortedMap.keys_of_related same, ?_, ?_⟩
  · intro key
    have alike := under key
    generalize a.groups.lookup key = first at alike ⊢
    generalize b.groups.lookup key = second at alike ⊢
    cases alike with
    | none => rfl
    | some alike => exact congrArg some alike.1
  · intro key group other presentA presentB
    have alike := under key
    rw [presentA, presentB] at alike
    cases alike with
    | some alike => exact ⟨alike.2, alike.2.length_eq⟩

theorem sameMatches_addRecords (results : Results) (perm : entries.Perm others)
    (records : List Record) :
    SameMatches (results.addRecords entries records) (results.addRecords others records) := by
  apply sameMatches_of_related
  apply related_addRecords _ perm
  unfold SortedMap.Related
  rw [List.forall₂_same]
  intro held _
  exact ⟨rfl, held.2.alike_refl⟩

end Reordered

end Results

section Loading

variable {files : Files} {sources : List Source} {start loaded : Corpus}

theorem Corpus.loadAll_eq_ok_iff :
    start.loadAll files sources = .ok loaded ↔
      ∃ parts, List.Forall₂ (fun source part => source.entries files = .ok part) sources parts ∧
        start.extend parts.flatten = loaded := by
  induction sources generalizing start with
  | nil =>
    rw [loadAll, List.foldlM_nil, Outcome.pure_eq_ok_iff]
    simp [extend]
  | cons source rest ih =>
    have step : ∀ next, (start.load files source).map Prod.fst = .ok next ↔
        ∃ part, source.entries files = .ok part ∧ start.extend part = next := by
      intro next
      rw [load]
      cases source.entries files <;> simp [Except.map]
    rw [loadAll, List.foldlM_cons, Outcome.bind_eq_ok_iff]
    simp only [step, List.forall₂_cons_left_iff]
    constructor
    · rintro ⟨_, ⟨part, read, rfl⟩, later⟩
      obtain ⟨parts, readRest, rfl⟩ := ih.mp later
      exact ⟨part :: parts, ⟨part, parts, read, readRest, rfl⟩, by simp [extend]⟩
    · rintro ⟨_, ⟨part, parts, read, readRest, rfl⟩, rfl⟩
      refine ⟨_, ⟨part, read, rfl⟩, ih.mpr ⟨parts, readRest, ?_⟩⟩
      simp [extend]

theorem Corpus.loadAll_of_perm {others : List Source} (perm : sources.Perm others)
    (succeeds : start.loadAll files sources = .ok loaded) :
    ∃ reloaded, start.loadAll files others = .ok reloaded ∧
      loaded.entries.Perm reloaded.entries := by
  obtain ⟨parts, read, rfl⟩ := loadAll_eq_ok_iff.mp succeeds
  obtain ⟨moved, readOthers, permParts⟩ := List.perm_comp_forall₂ perm.symm read
  refine ⟨_, loadAll_eq_ok_iff.mpr ⟨moved, readOthers, rfl⟩, ?_⟩
  exact (permParts.symm.flatten).append_left _

theorem SharedCorpus.entries_run_of_perm (shared : SharedCorpus)
    {operations others : List SharedCorpus.Operation} (perm : operations.Perm others)
    (grow : ∀ operation ∈ operations, ¬operation.Replaces) :
    (shared.run operations).1.current.entries.Perm (shared.run others).1.current.entries := by
  have growOthers : ∀ operation ∈ others, ¬operation.Replaces := by
    intro operation mem
    exact grow operation (perm.mem_iff.mpr mem)
  -- A load that fails has nothing to add, wherever it stands.
  rw [entries_run grow, entries_run growOthers]
  exact (perm.flatMap_right _).append_left _

end Loading

namespace Results

/-- The order of a corpus shows only in the order of the matches under a key. So it does not matter in
which order its sources were loaded, nor in which order it was worked on as long as nothing was
replaced. If all sources can be loaded in one order, then they can in any other. -/
theorem addRecords_in_any_order (results : Results) (records : List Record) :
    (∀ corpus other : Corpus, corpus.entries.Perm other.entries →
      SameMatches (results.addRecords corpus.entries records)
        (results.addRecords other.entries records)) ∧
      (∀ (files : Files) (start : Corpus) (sources others : List Source) (loaded : Corpus),
        sources.Perm others → start.loadAll files sources = .ok loaded →
          ∃ reloaded, start.loadAll files others = .ok reloaded ∧
            loaded.entries.Perm reloaded.entries ∧
            SameMatches (results.addRecords loaded.entries records)
              (results.addRecords reloaded.entries records)) ∧
      ∀ (shared : SharedCorpus) (operations others : List SharedCorpus.Operation),
        operations.Perm others → (∀ operation ∈ operations, ¬operation.Replaces) →
          (shared.run operations).1.current.entries.Perm (shared.run others).1.current.entries ∧
            SameMatches
              (results.addRecords (shared.run operations).1.current.entries records)
              (results.addRecords (shared.run others).1.current.entries records) := by
  refine ⟨?_, ?_, ?_⟩
  · intro corpus other perm
    exact sameMatches_addRecords results perm records
  · intro files start sources others loaded perm succeeds
    obtain ⟨reloaded, again, permEntries⟩ := Corpus.loadAll_of_perm perm succeeds
    exact ⟨reloaded, again, permEntries, sameMatches_addRecords results permEntries records⟩
  · intro shared operations others perm grow
    have permEntries := shared.entries_run_of_perm perm grow
    exact ⟨permEntries, sameMatches_addRecords results permEntries records⟩

open Session (goldEntry goldRecord matching_goldRecord)

def goldFiles : Files where
  kind? _ := some .file
  list _ := .error .notADirectory
  read path := .ok (Entry.stored [goldEntry path.text])

theorem loadAll_goldFiles (first second : String) :
    Corpus.empty.loadAll goldFiles [.file first, .file second] =
      .ok ⟨[goldEntry first, goldEntry second]⟩ := by
  have read : ∀ path : String, (Source.file path).entries goldFiles = .ok [goldEntry path] := by
    intro path
    have held : goldFiles.read path = .ok (Entry.stored [goldEntry path]) := by
      simp only [goldFiles, Path.text_ofText]
    rw [Source.entries, Entry.ofFile_stored held]
  exact Corpus.loadAll_eq_ok_iff.mpr ⟨_, .cons (read first) (.cons (read second) .nil), rfl⟩

theorem addRecords_goldEntry (first second : String) :
    (addRecords empty [goldEntry first, goldEntry second] [goldRecord]).groups =
      [(⟨"gold.sol", "Gold"⟩, ⟨goldRecord, [goldEntry first, goldEntry second]⟩)] := by
  have named : MatchKey.ofRecord goldRecord = ⟨"gold.sol", "Gold"⟩ := rfl
  have found : matching goldRecord [goldEntry first, goldEntry second] =
      [goldEntry first, goldEntry second] := matching_goldRecord [first, second]
  rw [addRecords_eq_foldl, List.foldl_cons, List.foldl_nil,
    addMatches_of_some _ _ _ (by simp [found]), found]
  simp [add, empty, SortedMap.alter, named]

theorem addRecords_in_any_order_of_gold :
    [goldEntry "a.sol", goldEntry "b.sol"].Perm [goldEntry "b.sol", goldEntry "a.sol"] ∧
      (addRecords empty [goldEntry "b.sol", goldEntry "a.sol"] [goldRecord]).groups.map Prod.fst =
        [⟨"gold.sol", "Gold"⟩] ∧
      (∃ reloaded, Corpus.empty.loadAll goldFiles [.file "b.sol", .file "a.sol"] = .ok reloaded ∧
        (addRecords empty reloaded.entries [goldRecord]).groups.map Prod.fst =
          [⟨"gold.sol", "Gold"⟩]) ∧
      ((SharedCorpus.run ⟨.empty, []⟩ [.load goldFiles (.file "a.sol"),
          .extend [goldEntry "b.sol"]]).1.current.entries).Perm
        (SharedCorpus.run ⟨.empty, []⟩ [.extend [goldEntry "b.sol"],
          .load goldFiles (.file "a.sol")]).1.current.entries := by
  have perm : [goldEntry "a.sol", goldEntry "b.sol"].Perm [goldEntry "b.sol", goldEntry "a.sol"] :=
    .swap _ _ _
  obtain ⟨permuted, loads, runs⟩ := addRecords_in_any_order empty [goldRecord]
  have key := addRecords_goldEntry "a.sol" "b.sol"
  refine ⟨perm, ?_, ?_, ?_⟩
  · rw [← (permuted ⟨_⟩ ⟨_⟩ perm).keys, key]
    rfl
  · obtain ⟨reloaded, again, -, same⟩ :=
      loads _ _ _ _ _ (.swap _ _ []) (loadAll_goldFiles "a.sol" "b.sol")
    refine ⟨reloaded, again, ?_⟩
    rw [← same.keys, key]
    rfl
  · refine (runs _ _ _ (.swap _ _ []) ?_).1
    simp [SharedCorpus.Operation.Replaces]

end Results

end ContractTwins
