import ContractTwins.Corpus.Basic
import ContractTwins.Proofs.SessionRuns

/-!
Matching as a plain loop over the records, each held against the whole corpus. The loop that runs
cuts down the entries to the hashes of the records first, and the records to the hashes of these
entries.
-/
namespace ContractTwins.Results

/-- Each record in turn is added with all entries that it matches, if there are any. -/
def plainly (entries : List Entry) (results : Results) : List Record → Results
  | [] => results
  | record :: rest =>
    if matching record entries = [] then plainly entries results rest
    else plainly entries (results.add record (matching record entries)) rest

section Loops

variable (results : Results) (entries : List Entry)

theorem foldl_addMatches_eq_plainly (records : List Record) :
    records.foldl (addMatches entries) results = plainly entries results records := by
  induction records generalizing results with
  | nil => rfl
  | cons record rest ih =>
    simp only [List.foldl_cons, plainly]
    split
    · rename_i nothing
      rw [addMatches_of_none results entries record nothing, ih]
    · rename_i nonempty
      rw [addMatches_of_some results entries record nonempty, ih]

theorem addRecords_append (first second : List Record) :
    results.addRecords entries (first ++ second) =
      (results.addRecords entries first).addRecords entries second := by
  simp only [addRecords_eq_foldl, List.foldl_append]

theorem matching_eq_byHash (record : Record) :
    matching record entries =
      ((Corpus.mk entries).byHash record.hash).filter fun entry =>
        entry.options.agrees record.options := by
  rw [← filter_isMatch, Corpus.byHash, List.filter_filter]
  apply List.filter_congr
  intro entry mem
  rw [isMatch, Bool.and_comm]

/-- Matching in two phases is plain matching. What a record gets from the entries that are left is
what it gets from the whole corpus, and is the part of the entries with its hash that names its
options. Records that come later can as well be matched in a second call, although then the entries
are cut down in another way. -/
theorem addRecords_eq_plainly (records : List Record) :
    results.addRecords entries records = plainly entries results records ∧
      (∀ record ∈ records,
        (candidates records entries).filter (isMatch record) = matching record entries) ∧
      (∀ record, matching record entries =
        ((Corpus.mk entries).byHash record.hash).filter fun entry =>
          entry.options.agrees record.options) ∧
      ∀ first second, results.addRecords entries (first ++ second) =
        (results.addRecords entries first).addRecords entries second := by
  refine ⟨?_, ?_, matching_eq_byHash entries, addRecords_append results entries⟩
  · rw [addRecords_eq_foldl, foldl_addMatches_eq_plainly]
  · intro record mem
    rw [filter_isMatch, matching_candidates entries mem]

end Loops

def hashed (hash path : String) : Record :=
  { Session.goldRecord with hash := hash, path := some path }

def hashedEntry (hash : String) (mode : Mode) : Entry :=
  ⟨hash, "Gold", none, .ofOptions ⟨.sha256, mode⟩⟩

/-- No entry has the hash of the third record. -/
def hashedRecords : List Record :=
  [hashed "aa" "gold.sol", hashed "bb" "silver.sol", hashed "cc" "tin.sol", hashed "aa" "gold.sol"]

/-- No record has the hash of the second entry, nor the mode of the third. -/
def hashedEntries : List Entry :=
  [hashedEntry "aa" .exact, hashedEntry "dd" .exact, hashedEntry "aa" .structural,
    hashedEntry "bb" .exact]

theorem addRecords_eq_plainly_of_gold :
    candidates hashedRecords hashedEntries =
        [hashedEntry "aa" .exact, hashedEntry "aa" .structural, hashedEntry "bb" .exact] ∧
      hashed "cc" "tin.sol" ∈ hashedRecords ∧
      (candidates hashedRecords hashedEntries).filter (isMatch (hashed "cc" "tin.sol")) = [] ∧
      (empty.addRecords hashedEntries hashedRecords).groups =
        [(⟨"gold.sol", "Gold"⟩, ⟨hashed "aa" "gold.sol",
            [hashedEntry "aa" .exact, hashedEntry "aa" .exact]⟩),
          (⟨"silver.sol", "Gold"⟩, ⟨hashed "bb" "silver.sol", [hashedEntry "bb" .exact]⟩)] ∧
      (empty.addRecords hashedEntries hashedRecords) =
        (empty.addRecords hashedEntries (hashedRecords.take 1)).addRecords hashedEntries
          (hashedRecords.drop 1) := by
  have mem : hashed "cc" "tin.sol" ∈ hashedRecords := by simp [hashedRecords]
  obtain ⟨plain, near, -, split⟩ := addRecords_eq_plainly empty hashedEntries hashedRecords
  refine ⟨rfl, mem, (near _ mem).trans rfl, ?_, split (hashedRecords.take 1) (hashedRecords.drop 1)⟩
  rw [plain]
  rfl

end ContractTwins.Results
