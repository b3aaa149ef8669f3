import ContractTwins.Match.Duplicates
import ContractTwins.Proofs.Matching

/-!
Sorting the records into classes one by one leaves under each key the records that have it, in their
order. The reported classes are those that a comparison with the corpus of all records would find.
-/
namespace ContractTwins

instance : Std.TransOrd ClassKey :=
  inferInstanceAs (Std.TransCmp (compareLex (compareOn ClassKey.mode)
    (compareLex (compareOn ClassKey.algorithm) (compareOn ClassKey.hash))))

instance : Std.LawfulEqOrd ClassKey where
  eq_of_compare := by
    rintro ⟨mode, algorithm, hash⟩ ⟨otherMode, otherAlgorithm, otherHash⟩ same
    obtain ⟨sameMode, same⟩ : compare mode otherMode = .eq ∧
        (compare algorithm otherAlgorithm).then (compare hash otherHash) = .eq :=
      Ordering.then_eq_eq.mp same
    obtain ⟨sameAlgorithm, sameHash⟩ := Ordering.then_eq_eq.mp same
    rw [Std.LawfulEqOrd.eq_of_compare sameMode, Std.LawfulEqOrd.eq_of_compare sameAlgorithm,
      Std.LawfulEqOrd.eq_of_compare sameHash]

namespace DuplicateGroup

/-- The names of the options tell them apart, so records of one key agree on hash and options. -/
theorem key_eq_iff {a b : Record} : key a = key b ↔ a.hash = b.hash ∧ a.options = b.options := by
  obtain ⟨_, hash, ⟨algorithm, mode⟩, _⟩ := a
  obtain ⟨_, otherHash, ⟨otherAlgorithm, otherMode⟩, _⟩ := b
  simp only [key, ClassKey.mk.injEq, HashOptions.mk.injEq]
  constructor
  · rintro ⟨sameMode, sameAlgorithm, sameHash⟩
    exact ⟨sameHash, Algorithm.name_injective sameAlgorithm, Mode.name_injective sameMode⟩
  · rintro ⟨sameHash, rfl, rfl⟩
    exact ⟨rfl, rfl, sameHash⟩

def isOf (record : Record) (group : DuplicateGroup) : Bool :=
  group.hash = record.hash ∧ group.options = record.options

def alike (key : ClassKey) (records : List Record) : List Record :=
  records.filter fun record => DuplicateGroup.key record = key

def ofAlike? : List Record → Option DuplicateGroup
  | [] => none
  | first :: more => some ⟨first.hash, first.options, (first :: more).map Record.toEntry⟩

theorem ofAlike?_append (records : List Record) (record : Record) :
    ofAlike? (records ++ [record]) = some (join record (ofAlike? records)) := by
  cases records with
  | nil => rfl
  | cons first more => simp [ofAlike?, join]

structure Classified (found : List (ClassKey × DuplicateGroup)) (records : List Record) : Prop where
  ascending : SortedMap.Ascending found
  lookup : ∀ key, found.lookup key = ofAlike? (alike key records)

theorem alike_append_singleton (key : ClassKey) (records : List Record) (record : Record) :
    alike key (records ++ [record]) =
      if DuplicateGroup.key record = key then alike key records ++ [record]
      else alike key records := by
  simp only [alike, List.filter_append, List.filter_singleton]
  split <;> simp_all

theorem classified_alter {found : List (ClassKey × DuplicateGroup)} {past : List Record}
    (classified : Classified found past) (record : Record) :
    Classified (SortedMap.alter (key record) (join record) found) (past ++ [record]) := by
  refine ⟨SortedMap.ascending_alter _ _ classified.ascending, fun other => ?_⟩
  rw [SortedMap.lookup_alter _ _ _ classified.ascending, classified.lookup, classified.lookup,
    alike_append_singleton]
  by_cases same : other = key record
  · rw [if_pos same, if_pos same.symm, same, ofAlike?_append]
  · rw [if_neg same, if_neg (Ne.symm same)]

theorem classified_foldl {found : List (ClassKey × DuplicateGroup)} {past : List Record}
    (classified : Classified found past) (records : List Record) :
    Classified
      (records.foldl (fun found record => SortedMap.alter (key record) (join record) found) found)
      (past ++ records) := by
  induction records generalizing found past with
  | nil => rwa [List.append_nil]
  | cons record rest ih =>
    rw [List.foldl_cons, List.append_cons]
    exact ih (classified_alter classified record)

theorem classified_classes (records : List Record) : Classified (classes records) records := by
  have start : Classified [] [] := ⟨List.Pairwise.nil, fun _ => rfl⟩
  exact classified_foldl start records

theorem key_of_ofAlike? {key : ClassKey} {records : List Record} {group : DuplicateGroup}
    (present : ofAlike? (alike key records) = some group) :
    ∃ record, DuplicateGroup.key record = key ∧ group.hash = record.hash ∧
      group.options = record.options := by
  cases found : alike key records with
  | nil =>
    rw [found] at present
    cases present
  | cons first more =>
    have mem : first ∈ alike key records := by simp [found]
    rw [found] at present
    cases present
    exact ⟨first, of_decide_eq_true (List.mem_filter.mp mem).2, rfl, rfl⟩

theorem filter_classes (records : List Record) (record : Record) :
    ((classes records).map Prod.snd).filter (isOf record) =
      (ofAlike? (alike (key record) records)).toList := by
  have classified := classified_classes records
  have byKey : ∀ entry ∈ classes records,
      isOf record entry.2 = decide (entry.1 = key record) := by
    rintro ⟨other, group⟩ mem
    have present := (SortedMap.lookup_eq_some_iff_mem
      (SortedMap.nodup_of_ascending classified.ascending)).mpr mem
    rw [classified.lookup] at present
    obtain ⟨first, rfl, sameHash, sameOptions⟩ := key_of_ofAlike? present
    rw [isOf, decide_eq_decide, sameHash, sameOptions, ← key_eq_iff]
  rw [List.filter_map, Function.comp_def, List.filter_congr byKey,
    SortedMap.filter_key classified.ascending, classified.lookup]
  cases ofAlike? (alike (key record) records) <;> rfl

theorem filter_find (records : List Record) (record : Record) :
    (find records).filter (isOf record) =
      (ofAlike? (alike (key record) records)).toList.filter fun group => 1 < group.members.length := by
  rw [find, List.filter_filter, ← filter_classes, List.filter_filter]
  exact List.filter_congr fun group _ => Bool.and_comm _ _

theorem matching_entries (records : List Record) (record : Record) :
    Results.matching record (records.map Record.toEntry) =
      (alike (key record) records).map Record.toEntry := by
  rw [Results.matching, alike, List.filter_map]
  congr 1
  apply List.filter_congr
  intro other _
  have same : (other.hash = record.hash ∧
      other.options.algorithm.name = record.options.algorithm.name ∧
      other.options.mode.name = record.options.mode.name) ↔ key other = key record := by
    rw [key, key, ClassKey.mk.injEq]
    tauto
  exact decide_eq_decide.mpr same

/-- A record that is compared by itself finds its class if that is reported, and otherwise itself
alone. -/
theorem matches_of_class {records : List Record} {record : Record} (mem : record ∈ records) :
    ∃ found, Results.empty.addRecords (records.map Record.toEntry) [record] =
        ⟨[(.ofRecord record, ⟨record, found⟩)]⟩ ∧
      ((∃ group, (find records).filter (isOf record) = [group] ∧ found = group.members) ∨
        (find records).filter (isOf record) = [] ∧ found = [record.toEntry]) := by
  have memAlike : record ∈ alike (key record) records := by simp [alike, mem]
  refine ⟨(alike (key record) records).map Record.toEntry, ?_, ?_⟩
  · have nonempty : Results.matching record (records.map Record.toEntry) ≠ [] := by
      rw [matching_entries]
      exact List.ne_nil_of_mem (List.mem_map_of_mem memAlike)
    rw [Results.addRecords_eq_foldl, List.foldl_cons, List.foldl_nil,
      Results.addMatches_of_some _ _ _ nonempty, matching_entries]
    rfl
  · rw [filter_find]
    match found : alike (key record) records with
    | [] =>
      rw [found] at memAlike
      cases memAlike
    | [only] =>
      rw [found, List.mem_singleton] at memAlike
      subst memAlike
      exact Or.inr ⟨rfl, rfl⟩
    | first :: second :: more => exact Or.inl ⟨_, rfl, rfl⟩

def purseRecord (path : String) (mode : Mode) : Record :=
  ⟨⟨"Purse", .contract, [], [], [], []⟩, "9f", ⟨.sha256, mode⟩, some path⟩

def purseRecords : List Record :=
  [purseRecord "a.sol" .exact, purseRecord "a.sol" .structural, purseRecord "b.sol" .exact]

theorem matches_of_class_purses :
    Results.empty.addRecords (purseRecords.map Record.toEntry) [purseRecord "b.sol" .exact] =
        ⟨[(⟨"b.sol", "Purse"⟩, ⟨purseRecord "b.sol" .exact,
          [(purseRecord "a.sol" .exact).toEntry, (purseRecord "b.sol" .exact).toEntry]⟩)]⟩ ∧
      Results.empty.addRecords (purseRecords.map Record.toEntry) [purseRecord "a.sol" .structural] =
        ⟨[(⟨"a.sol", "Purse"⟩, ⟨purseRecord "a.sol" .structural,
          [(purseRecord "a.sol" .structural).toEntry]⟩)]⟩ := by
  have memExact : purseRecord "b.sol" .exact ∈ purseRecords := by simp [purseRecords]
  have memStructural : purseRecord "a.sol" .structural ∈ purseRecords := by simp [purseRecords]
  constructor
  · have reported : (find purseRecords).filter (isOf (purseRecord "b.sol" .exact)) =
        [⟨"9f", ⟨.sha256, .exact⟩,
          [(purseRecord "a.sol" .exact).toEntry, (purseRecord "b.sol" .exact).toEntry]⟩] := by
      rw [filter_find]
      rfl
    obtain ⟨found, alone, ⟨group, same, rfl⟩ | ⟨none, -⟩⟩ :=
      matches_of_class memExact
    · rw [reported, List.singleton_inj] at same
      subst same
      exact alone
    · rw [reported] at none
      cases none
  · have unreported : (find purseRecords).filter (isOf (purseRecord "a.sol" .structural)) = [] := by
      rw [filter_find]
      rfl
    obtain ⟨found, alone, ⟨group, same, -⟩ | ⟨-, rfl⟩⟩ :=
      matches_of_class memStructural
    · rw [unreported] at same
      cases same
    · exact alone

end DuplicateGroup

end ContractTwins
