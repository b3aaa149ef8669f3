import ContractTwins.Match.Results
import ContractTwins.Proofs.AscendingKeys
import Mathlib.Data.List.Basic

/-!
What comparisons find. Narrowing the corpus to the hashes at hand drops no match, so what stands
under a key is what a search of the whole corpus finds for the records with this key.
-/
namespace ContractTwins

instance : Std.TransOrd MatchKey :=
  inferInstanceAs (Std.TransCmp (compareLex (compareOn MatchKey.path) (compareOn MatchKey.name)))

instance : Std.LawfulEqOrd MatchKey where
  eq_of_compare := by
    rintro ⟨path, name⟩ ⟨otherPath, otherName⟩ same
    obtain ⟨samePath, sameName⟩ : compare path otherPath = .eq ∧ compare name otherName = .eq :=
      Ordering.then_eq_eq.mp same
    rw [Std.LawfulEqOrd.eq_of_compare samePath, Std.LawfulEqOrd.eq_of_compare sameName]

namespace Results

def matching (record : Record) (entries : List Entry) : List Entry :=
  entries.filter fun entry => entry.hash = record.hash ∧
    entry.options.algorithm = record.options.algorithm.name ∧
    entry.options.mode = record.options.mode.name

theorem filter_isMatch (record : Record) (entries : List Entry) :
    entries.filter (isMatch record) = matching record entries := by
  apply List.filter_congr
  intro entry _
  simp [isMatch, EntryOptions.agrees, Bool.decide_and, Bool.beq_eq_decide_eq]

theorem mem_matching {record : Record} {entries : List Entry} {entry : Entry} :
    entry ∈ matching record entries ↔ entry ∈ entries ∧ entry.hash = record.hash ∧
      entry.options = .ofOptions record.options := by
  obtain ⟨hash, name, path, ⟨algorithm, mode⟩⟩ := entry
  simp [matching, EntryOptions.ofOptions]

section Narrowing

variable (results : Results) (entries : List Entry) (record : Record)

theorem addMatches_of_none (nothing : matching record entries = []) :
    addMatches entries results record = results := by
  rw [addMatches, filter_isMatch, nothing]

theorem addMatches_of_some (nonempty : matching record entries ≠ []) :
    addMatches entries results record = results.add record (matching record entries) := by
  rw [addMatches, filter_isMatch]
  split
  · contradiction
  · rfl

variable {record}

theorem matching_candidates {records : List Record} (mem : record ∈ records) :
    matching record (candidates records entries) = matching record entries := by
  rw [matching, candidates, List.filter_filter]
  apply List.filter_congr
  intro entry _
  by_cases same : entry.hash = record.hash
  · simp [same, List.mem_map_of_mem mem]
  · simp [same]

theorem addMatches_of_far (far : record.hash ∉ entries.map Entry.hash) :
    addMatches entries results record = results := by
  apply addMatches_of_none
  rw [List.eq_nil_iff_forall_not_mem]
  intro entry mem
  obtain ⟨present, same, -⟩ := mem_matching.mp mem
  exact far (same ▸ List.mem_map_of_mem present)

theorem foldl_addMatches_near (records : List Record) :
    (records.filter fun record => (entries.map Entry.hash).contains record.hash).foldl
        (addMatches entries) results =
      records.foldl (addMatches entries) results := by
  induction records generalizing results with
  | nil => rfl
  | cons record rest ih =>
    rw [List.filter_cons, List.foldl_cons]
    split
    · rw [List.foldl_cons, ih]
    · rename_i far
      rw [ih, addMatches_of_far results entries (by simpa using far)]

theorem foldl_addMatches_congr {a b : List Entry} {records : List Record}
    (same : ∀ record ∈ records, matching record a = matching record b) :
    records.foldl (addMatches a) results = records.foldl (addMatches b) results := by
  induction records generalizing results with
  | nil => rfl
  | cons record rest ih =>
    rw [List.forall_mem_cons] at same
    have first : addMatches a results record = addMatches b results record := by
      rw [addMatches, addMatches, filter_isMatch, filter_isMatch, same.1]
    rw [List.foldl_cons, List.foldl_cons, first, ih _ same.2]

/-- Neither of the two cuts loses a match. -/
theorem addRecords_eq_foldl (records : List Record) :
    results.addRecords entries records = records.foldl (addMatches entries) results := by
  rw [addRecords, foldl_addMatches_near]
  exact foldl_addMatches_congr results fun record mem => matching_candidates entries mem

end Narrowing

/-- A record beside the entries that were present when it was compared. -/
abbrev Compared := Record × List Entry

/-- The matches of the records with a key, in the order in which these were compared. -/
def foundUnder (key : MatchKey) (history : List Compared) : List Entry :=
  (history.filter fun compared => MatchKey.ofRecord compared.1 = key).flatMap fun compared =>
    matching compared.1 compared.2

def target? (key : MatchKey) (history : List Compared) : Option Record :=
  (history.find? fun compared =>
    MatchKey.ofRecord compared.1 = key ∧ matching compared.1 compared.2 ≠ []).map Prod.fst

def groupUnder (key : MatchKey) (history : List Compared) : Option MatchGroup :=
  (target? key history).map fun target => ⟨target, foundUnder key history⟩

theorem mem_foundUnder {key : MatchKey} {history : List Compared} {entry : Entry} :
    entry ∈ foundUnder key history ↔
      ∃ compared ∈ history, MatchKey.ofRecord compared.1 = key ∧
        entry ∈ matching compared.1 compared.2 := by
  simp only [foundUnder, List.mem_flatMap, List.mem_filter, decide_eq_true_eq, and_assoc]

theorem foundUnder_append (key : MatchKey) (before after : List Compared) :
    foundUnder key (before ++ after) = foundUnder key before ++ foundUnder key after := by
  simp [foundUnder]

theorem foundUnder_singleton (key : MatchKey) (record : Record) (entries : List Entry) :
    foundUnder key [(record, entries)] =
      if MatchKey.ofRecord record = key then matching record entries else [] := by
  simp only [foundUnder, List.filter_cons, List.filter_nil]
  split <;> simp_all

theorem target?_append (key : MatchKey) (before after : List Compared) :
    target? key (before ++ after) = (target? key before).or (target? key after) := by
  simp [target?, List.find?_append, Option.map_or]

theorem target?_eq_none_iff {key : MatchKey} {history : List Compared} :
    target? key history = none ↔ foundUnder key history = [] := by
  simp only [target?, foundUnder, Option.map_eq_none_iff, List.find?_eq_none,
    List.flatMap_eq_nil_iff, List.mem_filter]
  grind

theorem target?_singleton (key : MatchKey) (record : Record) (entries : List Entry) :
    target? key [(record, entries)] =
      if MatchKey.ofRecord record = key ∧ matching record entries ≠ [] then some record
      else none := by
  simp only [target?, List.find?_singleton, decide_eq_true_eq]
  split <;> rfl

theorem groupUnder_append_of_not {key : MatchKey} {record : Record} {entries : List Entry}
    (other : ¬(MatchKey.ofRecord record = key ∧ matching record entries ≠ []))
    (history : List Compared) :
    groupUnder key (history ++ [(record, entries)]) = groupUnder key history := by
  have nothing : foundUnder key [(record, entries)] = [] := by
    rw [foundUnder_singleton]
    split
    · rename_i same
      by_contra nonempty
      exact other ⟨same, nonempty⟩
    · rfl
  rw [groupUnder, target?_append, foundUnder_append, target?_singleton, if_neg other, nothing,
    Option.or_none, List.append_nil, groupUnder]

theorem groupUnder_append_of_matching {record : Record} {entries : List Entry}
    (nonempty : matching record entries ≠ []) (history : List Compared) :
    groupUnder (.ofRecord record) (history ++ [(record, entries)]) =
      match groupUnder (.ofRecord record) history with
      | none => some ⟨record, matching record entries⟩
      | some group => some ⟨group.target, group.found ++ matching record entries⟩ := by
  rw [groupUnder, target?_append, foundUnder_append, target?_singleton, if_pos ⟨rfl, nonempty⟩,
    foundUnder_singleton, if_pos rfl, groupUnder]
  cases first : target? (.ofRecord record) history with
  | none =>
    rw [target?_eq_none_iff.mp first]
    rfl
  | some target => rfl

/-- The results hold what the comparisons so far have found. -/
structure Gathered (results : Results) (history : List Compared) : Prop where
  ascending : SortedMap.Ascending results.groups
  lookup : ∀ key, results.groups.lookup key = groupUnder key history

theorem gathered_empty : Gathered empty [] := ⟨List.Pairwise.nil, fun _ => rfl⟩

theorem gathered_addMatches {results : Results} {history : List Compared}
    (gathered : Gathered results history) (entries : List Entry) (record : Record) :
    Gathered (addMatches entries results record) (history ++ [(record, entries)]) := by
  by_cases unmatched : matching record entries = []
  · rw [addMatches_of_none results entries record unmatched]
    refine ⟨gathered.ascending, fun key => ?_⟩
    rw [groupUnder_append_of_not (fun both => both.2 unmatched), gathered.lookup]
  · rw [addMatches_of_some results entries record unmatched]
    refine ⟨SortedMap.ascending_alter _ _ gathered.ascending, fun key => ?_⟩
    rw [add, SortedMap.lookup_alter _ _ _ gathered.ascending]
    split
    · rename_i same
      rw [same, groupUnder_append_of_matching unmatched, gathered.lookup]
      cases groupUnder (.ofRecord record) history <;> rfl
    · rename_i other
      rw [groupUnder_append_of_not (fun same => other same.1.symm), gathered.lookup]

theorem gathered_addRecords {results : Results} {history : List Compared}
    (gathered : Gathered results history) (entries : List Entry) (records : List Record) :
    Gathered (results.addRecords entries records)
      (history ++ records.map fun record => (record, entries)) := by
  rw [addRecords_eq_foldl]
  induction records generalizing results history with
  | nil => rwa [List.map_nil, List.append_nil]
  | cons record rest ih =>
    rw [List.foldl_cons, List.map_cons, List.append_cons]
    exact ih (gathered_addMatches gathered entries record)

section Groups

variable {results : Results} {history : List Compared} {key : MatchKey} {group : MatchGroup}

theorem lookup_eq_none_iff (gathered : Gathered results history) :
    results.groups.lookup key = none ↔ foundUnder key history = [] := by
  rw [gathered.lookup, groupUnder, Option.map_eq_none_iff, target?_eq_none_iff]

theorem found_of_lookup (gathered : Gathered results history)
    (present : results.groups.lookup key = some group) :
    target? key history = some group.target ∧ group.found = foundUnder key history := by
  rw [gathered.lookup, groupUnder, Option.map_eq_some_iff] at present
  obtain ⟨target, first, rfl⟩ := present
  exact ⟨first, rfl⟩

/-- What stands under a key begins with the matches of its target. -/
theorem agrees_of_lookup (gathered : Gathered results history)
    (present : results.groups.lookup key = some group) :
    ∃ first rest, group.found = first :: rest ∧ first.hash = group.target.hash ∧
      first.options = .ofOptions group.target.options := by
  obtain ⟨target, found⟩ := found_of_lookup gathered present
  rw [target?, Option.map_eq_some_iff] at target
  obtain ⟨⟨record, entries⟩, first, isTarget⟩ := target
  obtain ⟨has, before, after, rfl, earlier⟩ := List.find?_eq_some_iff_append.mp first
  obtain ⟨same, nonempty⟩ := of_decide_eq_true has
  have nothing : foundUnder key before = [] := by
    rw [← target?_eq_none_iff, target?, Option.map_eq_none_iff, List.find?_eq_none]
    intro compared mem holds
    have fails := earlier compared mem
    rw [holds] at fails
    cases fails
  rw [← List.singleton_append, foundUnder_append, foundUnder_append, nothing, List.nil_append,
    foundUnder_singleton, if_pos same] at found
  obtain ⟨entry, more, begins⟩ := List.exists_cons_of_ne_nil nonempty
  have mem : entry ∈ matching record entries := by simp [begins]
  obtain ⟨-, hash, options⟩ := mem_matching.mp mem
  rw [begins, List.cons_append] at found
  rw [← isTarget]
  exact ⟨entry, _, found, hash, options⟩

end Groups

end Results

end ContractTwins
