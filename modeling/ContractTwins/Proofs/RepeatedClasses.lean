import ContractTwins.Proofs.DuplicateClasses
import Mathlib.Data.List.Perm.Basic

/-!
The groups of duplicates that are reported, beside the positions of the records that they list. The
order of the records shows inside the groups and nowhere else.
-/
namespace ContractTwins

namespace ClassKey

/-- By the mode, then by the algorithm, then by the hash. -/
def Before (a b : ClassKey) : Prop :=
  a.mode < b.mode ∨ a.mode = b.mode ∧
    (a.algorithm < b.algorithm ∨ a.algorithm = b.algorithm ∧ a.hash < b.hash)

theorem before_of_compare {a b : ClassKey} (lower : compare a b = .lt) : a.Before b := by
  have parts : (compare a.mode b.mode).then
      ((compare a.algorithm b.algorithm).then (compare a.hash b.hash)) = .lt := lower
  have below : ∀ first second : String, compare first second = .lt → first < second := by
    intro first second
    exact compareOfLessAndEq_eq_lt.mp
  rcases Ordering.then_eq_lt.mp parts with mode | ⟨mode, parts⟩
  · exact Or.inl (below _ _ mode)
  · refine Or.inr ⟨Std.LawfulEqOrd.eq_of_compare mode, ?_⟩
    rcases Ordering.then_eq_lt.mp parts with algorithm | ⟨algorithm, hash⟩
    · exact Or.inl (below _ _ algorithm)
    · exact Or.inr ⟨Std.LawfulEqOrd.eq_of_compare algorithm, below _ _ hash⟩

end ClassKey

namespace DuplicateGroup

def classKey (group : DuplicateGroup) : ClassKey :=
  ⟨group.options.mode.name, group.options.algorithm.name, group.hash⟩

section Classes

variable {records : List Record} {key : ClassKey} {group : DuplicateGroup}

theorem isOf_iff {record : Record} :
    isOf record group = true ↔ group.hash = record.hash ∧ group.options = record.options := by
  simp only [isOf, decide_eq_true_eq]

theorem classKey_of_ofAlike? (present : ofAlike? (alike key records) = some group) :
    group.classKey = key := by
  obtain ⟨first, same, hash, options⟩ := key_of_ofAlike? present
  unfold classKey
  rw [hash, options]
  exact same

theorem filter_isOf (present : ofAlike? (alike key records) = some group) :
    (records.filter fun record => isOf record group) = alike key records := by
  obtain ⟨first, same, hash, options⟩ := key_of_ofAlike? present
  unfold alike
  apply List.filter_congr
  intro record _
  rw [isOf, decide_eq_decide, hash, options, ← key_eq_iff, same, eq_comm]

theorem members_of_ofAlike? (present : ofAlike? (alike key records) = some group) :
    group.members = (records.filter fun record => isOf record group).map Record.toEntry := by
  rw [filter_isOf present]
  cases found : alike key records with
  | nil =>
    rw [found] at present
    cases present
  | cons first more =>
    rw [found] at present
    cases present
    rfl

theorem ofAlike?_of_mem_classes (mem : (key, group) ∈ classes records) :
    ofAlike? (alike key records) = some group := by
  have classified := classified_classes records
  rw [← classified.lookup]
  exact (SortedMap.lookup_eq_some_iff_mem (SortedMap.nodup_of_ascending classified.ascending)).mpr mem

theorem mem_find_iff :
    group ∈ find records ↔
      1 < group.members.length ∧ ∃ key, ofAlike? (alike key records) = some group := by
  have classified := classified_classes records
  simp only [find, List.mem_filter, List.mem_map, decide_eq_true_eq]
  constructor
  · rintro ⟨⟨⟨key, _⟩, mem, rfl⟩, several⟩
    exact ⟨several, key, ofAlike?_of_mem_classes mem⟩
  · rintro ⟨several, key, present⟩
    rw [← classified.lookup] at present
    exact ⟨⟨_, SortedMap.mem_of_lookup_eq_some present, rfl⟩, several⟩

theorem members_of_mem_find (mem : group ∈ find records) :
    2 ≤ group.members.length ∧
      group.members = (records.filter fun record => isOf record group).map Record.toEntry := by
  obtain ⟨several, key, present⟩ := mem_find_iff.mp mem
  exact ⟨several, members_of_ofAlike? present⟩

theorem exists_mem_find {record : Record} (mem : record ∈ records)
    (several : 2 ≤ (alike (DuplicateGroup.key record) records).length) :
    ∃ group ∈ find records, isOf record group = true := by
  have memAlike : record ∈ alike (DuplicateGroup.key record) records := by
    simp [alike, mem]
  cases found : alike (DuplicateGroup.key record) records with
  | nil =>
    rw [found] at memAlike
    cases memAlike
  | cons first more =>
    have present : ofAlike? (alike (DuplicateGroup.key record) records) =
        some ⟨first.hash, first.options, (first :: more).map Record.toEntry⟩ := by
      rw [found]
      rfl
    have isOf : record ∈ records.filter fun record =>
        isOf record ⟨first.hash, first.options, (first :: more).map Record.toEntry⟩ := by
      rwa [filter_isOf present]
    refine ⟨_, mem_find_iff.mpr ⟨?_, _, present⟩, (List.mem_filter.mp isOf).2⟩
    rw [found] at several
    rw [List.length_map]
    omega

theorem pairwise_find (records : List Record) :
    (find records).Pairwise fun a b => a.classKey.Before b.classKey := by
  have ascending := (classified_classes records).ascending
  unfold find
  apply List.Pairwise.filter
  rw [List.pairwise_map]
  apply List.Pairwise.imp_of_mem _ ascending
  intro a b memA memB lower
  rw [classKey_of_ofAlike? (ofAlike?_of_mem_classes memA),
    classKey_of_ofAlike? (ofAlike?_of_mem_classes memB)]
  exact ClassKey.before_of_compare lower

end Classes

/-- The group has as its members the entries of the records at the positions, in their order. -/
structure Lists (records : List Record) (group : DuplicateGroup) (positions : List Nat) : Prop where
  ordered : positions.Pairwise (· < ·)
  members : (positions.map fun i => records[i]?.map Record.toEntry) = group.members.map some
  shared : ∀ i ∈ positions, ∃ record, records[i]? = some record ∧ group.hash = record.hash ∧
    group.options = record.options

section Positions

variable {records : List Record} {group : DuplicateGroup} {i j : Nat} {a b : Record}

def positions (records : List Record) (group : DuplicateGroup) : List Nat :=
  records.findIdxs fun record => isOf record group

theorem map_findIdxs {α : Type} (select : α → Bool) (items : List α) :
    ((items.findIdxs select).map fun i => items[i]?) = (items.filter select).map some := by
  apply List.ext_getElem
  · simp [List.countP_eq_length_filter]
  · intro i inside within
    simp only [List.getElem_map]
    rw [List.getElem_filter_eq_getElem_getElem_findIdxs]
    exact List.getElem?_eq_getElem _

theorem mem_positions_iff (stands : records[i]? = some a) :
    i ∈ positions records group ↔ group.hash = a.hash ∧ group.options = a.options := by
  obtain ⟨inside, rfl⟩ := List.getElem?_eq_some_iff.mp stands
  unfold positions
  rw [List.mem_findIdxs_iff_pos_getElem inside, isOf_iff]

theorem stands_of_mem_positions (mem : i ∈ positions records group) :
    ∃ record, records[i]? = some record := by
  unfold positions at mem
  obtain ⟨inside, -⟩ := List.mem_findIdxs_iff_exists_getElem_pos.mp mem
  exact ⟨records[i], List.getElem?_eq_getElem inside⟩

theorem lists_positions (mem : group ∈ find records) :
    Lists records group (positions records group) := by
  refine ⟨List.pairwise_findIdxs, ?_, ?_⟩
  · have entries := congrArg (List.map (Option.map Record.toEntry))
      (map_findIdxs (fun record => isOf record group) records)
    rw [(members_of_mem_find mem).2]
    simpa [positions, Function.comp_def] using entries
  · intro i memPositions
    obtain ⟨record, stands⟩ := stands_of_mem_positions memPositions
    exact ⟨record, stands, (mem_positions_iff stands).mp memPositions⟩

theorem two_le_length_positions (mem : group ∈ find records) :
    2 ≤ (positions records group).length := by
  obtain ⟨several, members⟩ := members_of_mem_find mem
  rw [members, List.length_map] at several
  unfold positions
  rw [List.length_findIdxs, List.countP_eq_length_filter]
  exact several

theorem two_le_length_of_ne {list : List Nat} (memI : i ∈ list) (memJ : j ∈ list)
    (different : i ≠ j) : 2 ≤ list.length := by
  have distinct : [i, j].Nodup := by simp [different]
  have both : [i, j] ⊆ list := by simp [memI, memJ]
  exact distinct.length_le_of_subset both

theorem exists_ne_of_two_le {list : List Nat} (distinct : list.Nodup) (two : 2 ≤ list.length)
    (i : Nat) : ∃ j ∈ list, j ≠ i := by
  by_contra none
  have only : list ⊆ [i] := by
    intro j mem
    by_contra other
    exact none ⟨j, mem, by simpa using other⟩
  have one := distinct.length_le_of_subset only
  rw [List.length_singleton] at one
  omega

theorem two_le_length_alike (different : i ≠ j) (standsI : records[i]? = some a)
    (standsJ : records[j]? = some b) (same : key b = key a) :
    2 ≤ (alike (key a) records).length := by
  obtain ⟨insideI, rfl⟩ := List.getElem?_eq_some_iff.mp standsI
  obtain ⟨insideJ, rfl⟩ := List.getElem?_eq_some_iff.mp standsJ
  have memI : i ∈ records.findIdxs fun record => key record = key records[i] := by
    simp [List.mem_findIdxs_iff_pos_getElem insideI]
  have memJ : j ∈ records.findIdxs fun record => key record = key records[i] := by
    simp [List.mem_findIdxs_iff_pos_getElem insideJ, same]
  have two := two_le_length_of_ne memI memJ different
  rw [List.length_findIdxs, List.countP_eq_length_filter] at two
  exact two

theorem together_iff (different : i ≠ j) (standsI : records[i]? = some a)
    (standsJ : records[j]? = some b) :
    (∃ group ∈ find records, i ∈ positions records group ∧ j ∈ positions records group) ↔
      a.hash = b.hash ∧ a.options = b.options := by
  constructor
  · rintro ⟨group, -, memI, memJ⟩
    obtain ⟨hashA, optionsA⟩ := (mem_positions_iff standsI).mp memI
    obtain ⟨hashB, optionsB⟩ := (mem_positions_iff standsJ).mp memJ
    exact ⟨hashA.symm.trans hashB, optionsA.symm.trans optionsB⟩
  · intro same
    have two := two_le_length_alike different standsI standsJ (key_eq_iff.mpr same).symm
    obtain ⟨group, mem, isOf⟩ := exists_mem_find (List.mem_of_getElem? standsI) two
    obtain ⟨hash, options⟩ := isOf_iff.mp isOf
    refine ⟨group, mem, (mem_positions_iff standsI).mpr ⟨hash, options⟩, ?_⟩
    exact (mem_positions_iff standsJ).mpr ⟨hash.trans same.1, options.trans same.2⟩

theorem alone_iff (stands : records[i]? = some a) :
    (∀ group ∈ find records, i ∉ positions records group) ↔
      ∀ j b, j ≠ i → records[j]? = some b → ¬(a.hash = b.hash ∧ a.options = b.options) := by
  constructor
  · intro none j b different standsJ same
    obtain ⟨group, mem, memI, -⟩ := (together_iff different.symm stands standsJ).mpr same
    exact none group mem memI
  · intro single group mem memI
    obtain ⟨j, memJ, different⟩ := exists_ne_of_two_le
      (lists_positions mem).ordered.nodup (two_le_length_positions mem) i
    obtain ⟨b, standsJ⟩ := stands_of_mem_positions memJ
    exact single j b different standsJ
      ((together_iff different.symm stands standsJ).mp ⟨group, mem, memI, memJ⟩)

end Positions

def SameGroup (a b : DuplicateGroup) : Prop :=
  a.hash = b.hash ∧ a.options = b.options ∧ a.members.Perm b.members

section Permuted

variable {records others : List Record}

theorem ofAlike?_of_perm (perm : others.Perm records) (key : ClassKey) :
    Option.Rel SameGroup (ofAlike? (alike key others)) (ofAlike? (alike key records)) := by
  have keys : ∀ list : List Record, ∀ record ∈ alike key list, DuplicateGroup.key record = key := by
    intro list record mem
    exact of_decide_eq_true (List.mem_filter.mp mem).2
  have permuted : (alike key others).Perm (alike key records) := perm.filter _
  have keysOthers := keys others
  have keysRecords := keys records
  generalize alike key others = first at *
  generalize alike key records = second at *
  cases first with
  | nil =>
    have empty := permuted.nil_eq
    subst empty
    exact .none
  | cons a more =>
    cases second with
    | nil =>
      have empty := permuted.length_eq
      cases empty
    | cons b rest =>
      have same := (keysOthers a List.mem_cons_self).trans (keysRecords b List.mem_cons_self).symm
      obtain ⟨hash, options⟩ := key_eq_iff.mp same
      exact .some ⟨hash, options, permuted.map Record.toEntry⟩

theorem find_of_perm (perm : others.Perm records) :
    List.Forall₂ SameGroup (find others) (find records) := by
  have classifiedOthers := classified_classes others
  have classified := classified_classes records
  have related : SortedMap.Related SameGroup (classes others) (classes records) := by
    apply SortedMap.related_of_lookup classifiedOthers.ascending classified.ascending
    -- Under one key both have the records with that key, the first of which may differ.
    intro key
    rw [classifiedOthers.lookup, classified.lookup]
    exact ofAlike?_of_perm perm key
  have groups : List.Forall₂ SameGroup ((classes others).map Prod.snd)
      ((classes records).map Prod.snd) := by
    rw [List.forall₂_map_left_iff, List.forall₂_map_right_iff]
    exact related.imp fun _ _ pair => pair.2
  unfold find
  refine List.rel_filter ?_ groups
  intro a b same
  simp [same.2.2.length_eq]

end Permuted

/-- The groups come in the order of their modes, algorithms and hashes. Each has two members or more:
the entries of all records with its hash and its options, in their order. Records at different
positions are in one group if and only if they agree in hash and options, and a record is in none if
and only if there is no other such record. With the records in another order the same groups come in
the same order. -/
theorem find_repeated (records : List Record) :
    (find records).Pairwise (fun a b => a.classKey.Before b.classKey) ∧
      (∀ group ∈ find records, 2 ≤ group.members.length ∧
        group.members = (records.filter fun record =>
          group.hash = record.hash ∧ group.options = record.options).map Record.toEntry) ∧
      (∃ places : List (List Nat), List.Forall₂ (Lists records) (find records) places ∧
        (∀ i j a b, i ≠ j → records[i]? = some a → records[j]? = some b →
          ((∃ positions ∈ places, i ∈ positions ∧ j ∈ positions) ↔
            a.hash = b.hash ∧ a.options = b.options)) ∧
        ∀ i a, records[i]? = some a →
          ((∀ positions ∈ places, i ∉ positions) ↔
            ∀ j b, j ≠ i → records[j]? = some b →
              ¬(a.hash = b.hash ∧ a.options = b.options))) ∧
      ∀ others : List Record, others.Perm records →
        List.Forall₂ SameGroup (find others) (find records) := by
  refine ⟨pairwise_find records, fun group => members_of_mem_find, ?_, fun others => find_of_perm⟩
  refine ⟨(find records).map (positions records), ?_, ?_, ?_⟩
  · rw [List.forall₂_map_right_iff, List.forall₂_same]
    intro group mem
    exact lists_positions mem
  · intro i j a b different standsI standsJ
    rw [← together_iff different standsI standsJ]
    simp only [List.mem_map, exists_exists_and_eq_and]
  · intro i a stands
    rw [← alone_iff stands, List.forall_mem_map]

theorem find_repeated_purses :
    ∃ places : List (List Nat), List.Forall₂ (Lists purseRecords) (find purseRecords) places ∧
      (∃ positions ∈ places, 0 ∈ positions ∧ 2 ∈ positions) ∧
      (∀ positions ∈ places, 1 ∉ positions) ∧
      List.Forall₂ SameGroup (find purseRecords.reverse) (find purseRecords) := by
  obtain ⟨-, -, ⟨places, listed, together, alone⟩, permuted⟩ := find_repeated purseRecords
  refine ⟨places, listed, ?_, ?_, permuted _ (List.reverse_perm _)⟩
  · exact (together 0 2 _ _ (by decide) rfl rfl).mpr ⟨rfl, rfl⟩
  · refine (alone 1 _ rfl).mpr ?_
    rintro j b other stands ⟨-, options⟩
    match j, other, stands with
    | 0, _, rfl => cases options
    | 2, _, rfl => cases options

end DuplicateGroup

end ContractTwins
