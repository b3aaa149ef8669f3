import ContractTwins.Proofs.PlainMatching

/-!
A key is written as one text, its path and its name with two colons between them, and where these
have colons too one text can be that of two keys. Which keys clash is said without the text.
-/
namespace ContractTwins

namespace MatchKey

/-- The path of the second key goes on with what the name of the first begins with. -/
inductive Overlaps : MatchKey → MatchKey → Prop where
  | colon (path name : String) : Overlaps ⟨path, ":" ++ name⟩ ⟨path ++ ":", name⟩
  | parts (path middle name : String) :
      Overlaps ⟨path, middle ++ "::" ++ name⟩ ⟨path ++ "::" ++ middle, name⟩

def Apart (keys : List MatchKey) : Prop := ∀ a ∈ keys, ∀ b ∈ keys, ¬Overlaps a b

section Texts

variable {a b : MatchKey}

theorem text_eq_of_overlaps (overlaps : Overlaps a b) : a.text = b.text := by
  cases overlaps with
  | colon path name => simp [text, String.append_assoc, ← String.toList_inj]
  | parts path middle name => simp [text, String.append_assoc]

/-- What follows a path is the name after two colons, and also what a longer path has more, with
another name after two colons. -/
theorem overlaps_of_rest {path name last : String} {more : List Char}
    (same : ':' :: ':' :: name.toList = more ++ ':' :: ':' :: last.toList) :
    (⟨path, name⟩ : MatchKey) = ⟨path ++ String.ofList more, last⟩ ∨
      Overlaps ⟨path, name⟩ ⟨path ++ String.ofList more, last⟩ := by
  match more, same with
  | [], same =>
    have names : name = last := String.toList_inj.mp (by simpa using same)
    exact .inl (by simp [names])
  | [_], same =>
    obtain ⟨rfl, later⟩ := List.cons.inj same
    have names : name = ":" ++ last := String.toList_inj.mp (by simpa using later)
    exact .inr (names ▸ .colon path last)
  | _ :: _ :: middle, same =>
    obtain ⟨rfl, later⟩ := List.cons.inj same
    obtain ⟨rfl, later⟩ := List.cons.inj later
    have names : name = String.ofList middle ++ "::" ++ last :=
      String.toList_inj.mp (by simpa using later)
    have paths : path ++ String.ofList (':' :: ':' :: middle) =
        path ++ "::" ++ String.ofList middle := by simp [← String.toList_inj]
    rw [paths, names]
    exact .inr (.parts path _ last)

theorem text_eq_iff : a.text = b.text ↔ a = b ∨ Overlaps a b ∨ Overlaps b a := by
  constructor
  · intro same
    obtain ⟨path, name⟩ := a
    obtain ⟨other, last⟩ := b
    have lists : path.toList ++ ':' :: ':' :: name.toList =
        other.toList ++ ':' :: ':' :: last.toList := by
      simpa [text] using congrArg String.toList same
    rcases List.append_eq_append_iff.mp lists with ⟨more, longer, rest⟩ | ⟨more, longer, rest⟩
    · have paths : other = path ++ String.ofList more :=
        String.toList_inj.mp (by simpa using longer)
      rw [paths]
      exact (overlaps_of_rest rest).imp_right .inl
    · have paths : path = other ++ String.ofList more :=
        String.toList_inj.mp (by simpa using longer)
      rw [paths]
      exact (overlaps_of_rest rest).imp Eq.symm .inr
  · rintro (rfl | overlaps | overlaps)
    · rfl
    · exact text_eq_of_overlaps overlaps
    · exact (text_eq_of_overlaps overlaps).symm

theorem colon_of_overlaps (overlaps : Overlaps a b) :
    ':' ∈ a.name.toList ∧ ':' ∈ b.path.toList := by
  cases overlaps <;> simp

theorem apart_of_no_colon {keys : List MatchKey}
    (plain : (∀ key ∈ keys, ':' ∉ key.name.toList) ∨ ∀ key ∈ keys, ':' ∉ key.path.toList) :
    Apart keys := by
  intro a memA b memB overlaps
  obtain ⟨named, placed⟩ := colon_of_overlaps overlaps
  rcases plain with names | paths
  · exact names a memA named
  · exact paths b memB placed

theorem length_lt_of_overlaps (overlaps : Overlaps a b) : a.path.length < b.path.length := by
  cases overlaps with
  | colon path name =>
    have one : ":".length = 1 := rfl
    dsimp only
    rw [String.length_append, one]
    omega
  | parts path middle name =>
    have two : "::".length = 2 := rfl
    dsimp only
    rw [String.length_append, String.length_append, two]
    omega

theorem not_overlaps_self : ¬Overlaps a a := by
  intro overlaps
  exact Nat.lt_irrefl _ (length_lt_of_overlaps overlaps)

theorem nodup_texts_iff {keys : List MatchKey} (nodup : keys.Nodup) :
    (keys.map text).Nodup ↔ Apart keys := by
  rw [List.nodup_map_iff_inj_on nodup]
  constructor
  · intro injective a memA b memB overlaps
    have same := injective a memA b memB (text_eq_of_overlaps overlaps)
    rw [same] at overlaps
    exact not_overlaps_self overlaps
  · intro apart a memA b memB same
    rcases text_eq_iff.mp same with same | overlaps | overlaps
    · exact same
    · exact absurd overlaps (apart a memA b memB)
    · exact absurd overlaps (apart b memB a memA)

end Texts

end MatchKey

namespace Results

/-- Results that are gathered one after the other, from none. -/
inductive Built : Results → Prop where
  | empty : Built .empty
  | add {results : Results} (target : Record) (found : List Entry) (built : Built results) :
      Built (results.add target found)

theorem built_addMatches {results : Results} (built : Built results) (entries : List Entry)
    (record : Record) : Built (addMatches entries results record) := by
  unfold addMatches
  split
  · exact built
  · exact .add record _ built

theorem built_addRecords {results : Results} (built : Built results) (entries : List Entry)
    (records : List Record) : Built (results.addRecords entries records) := by
  rw [addRecords_eq_foldl]
  induction records generalizing results with
  | nil => exact built
  | cons record rest ih => exact ih (built_addMatches built entries record)

theorem built_step {session : Session} (built : Built session.results) (step : Session.Step) :
    Built (session.step step).results := by
  cases step with
  | change operation => exact built
  | compare options document path =>
    rw [Session.step]
    cases taken : fingerprint document options path with
    | ok records =>
      rw [Session.compareInto_ok session taken]
      exact built_addRecords built _ records
    | error error => rwa [Session.compareInto_error session taken]

theorem built_run {session : Session} (built : Built session.results)
    (steps : List Session.Step) : Built (session.run steps).results := by
  induction steps generalizing session with
  | nil => exact built
  | cons step rest ih => exact ih (built_step built step)

section Built

variable {results : Results}

theorem ascending_of_built (built : Built results) : SortedMap.Ascending results.groups := by
  induction built with
  | empty => exact .nil
  | add target found built ih => exact SortedMap.ascending_alter _ _ ih

theorem key_of_built (built : Built results) :
    ∀ entry ∈ results.groups, MatchKey.ofRecord entry.2.target = entry.1 := by
  induction built with
  | empty => simp [Results.empty]
  | @add results target found built ih =>
    rintro ⟨key, group⟩ mem
    have ascending := ascending_of_built (.add target found built)
    rw [← SortedMap.lookup_eq_some_iff_mem (SortedMap.nodup_of_ascending ascending), add,
      SortedMap.lookup_alter _ _ _ (ascending_of_built built)] at mem
    split at mem
    · rename_i same
      cases held : results.groups.lookup (.ofRecord target) with
      | none =>
        rw [held] at mem
        rw [← Option.some.inj mem, same]
      | some before =>
        rw [held] at mem
        have first := ih _ (SortedMap.mem_of_lookup_eq_some held)
        rw [← Option.some.inj mem, same]
        exact first
    · exact ih _ (SortedMap.mem_of_lookup_eq_some mem)

end Built

/-- What is written of a record tells its key. -/
theorem key_of_toJson {a b : Record} (same : a.toJson = b.toJson) :
    MatchKey.ofRecord a = MatchKey.ofRecord b := by
  obtain ⟨fields, paths⟩ := List.append_inj (Json.object.inj same) rfl
  have name : a.name = b.name := by
    have first := (List.cons.inj fields).1
    exact Json.text.inj (Prod.mk.inj first).2
  have path : a.path = b.path := by
    cases placeA : a.path <;> cases placeB : b.path <;> simp_all
  rw [MatchKey.ofRecord, MatchKey.ofRecord, name, path]

theorem key_of_group {results : Results} (built : Built results) {a b : MatchKey × MatchGroup}
    (memA : a ∈ results.groups) (memB : b ∈ results.groups) (same : a.2.toJson = b.2.toJson) :
    a.1 = b.1 := by
  have target := (List.cons.inj (Json.object.inj same)).1
  rw [← key_of_built built a memA, ← key_of_built built b memB]
  exact key_of_toJson (Prod.mk.inj target).2

def members (results : Results) : List (String × Json) :=
  results.groups.map fun entry => (entry.1.text, entry.2.toJson)

section Written

variable {results : Results}

theorem nodup_names_iff (built : Built results) :
    (results.members.map Prod.fst).Nodup ↔ MatchKey.Apart (results.groups.map Prod.fst) := by
  have names : results.members.map Prod.fst =
      (results.groups.map Prod.fst).map MatchKey.text := by
    rw [members, List.map_map, List.map_map]
    rfl
  rw [names]
  exact MatchKey.nodup_texts_iff (SortedMap.nodup_of_ascending (ascending_of_built built))

theorem recovered_of_apart (built : Built results)
    (apart : MatchKey.Apart (results.groups.map Prod.fst)) :
    ∀ entry ∈ results.groups,
      (SortedMap.ofList results.members).lookup entry.1.text = some entry.2.toJson := by
  intro entry mem
  have perm := SortedMap.ofList_perm ((nodup_names_iff built).mpr apart)
  have distinct := SortedMap.nodup_of_ascending (SortedMap.ascending_ofList results.members)
  rw [SortedMap.lookup_eq_some_iff_mem distinct, perm.mem_iff]
  exact List.mem_map.mpr ⟨entry, mem, rfl⟩

/-- Of two groups under one text a reader keeps one at most: they are written differently. -/
theorem apart_of_recovered (built : Built results)
    (recovered : ∀ entry ∈ results.groups,
      (SortedMap.ofList results.members).lookup entry.1.text = some entry.2.toJson) :
    MatchKey.Apart (results.groups.map Prod.fst) := by
  intro key memKey other memOther overlaps
  obtain ⟨a, memA, rfl⟩ := List.mem_map.mp memKey
  obtain ⟨b, memB, rfl⟩ := List.mem_map.mp memOther
  have read := recovered a memA
  rw [MatchKey.text_eq_of_overlaps overlaps, recovered b memB] at read
  have same := key_of_group built memA memB (Option.some.inj read).symm
  rw [same] at overlaps
  exact MatchKey.not_overlaps_self overlaps

end Written

/-- How a report writes the groups. -/
structure WritesGroups (results : Results) : Prop where
  written : results.toJson = .object results.members
  one_each : List.Forall₂ (fun entry member => member = (entry.1.text, entry.2.toJson))
    results.groups results.members
  ascending : SortedMap.Ascending results.groups
  clash : ∀ a ∈ results.groups, ∀ b ∈ results.groups, a.1 ≠ b.1 →
    (a.1.text = b.1.text ↔ MatchKey.Overlaps a.1 b.1 ∨ MatchKey.Overlaps b.1 a.1)
  distinct : (results.members.map Prod.fst).Nodup ↔
    MatchKey.Apart (results.groups.map Prod.fst)
  /-- A reader that keeps one member under a name gets every group if the keys are apart, and only
  then. -/
  recovered : (∀ entry ∈ results.groups,
      (SortedMap.ofList results.members).lookup entry.1.text = some entry.2.toJson) ↔
    MatchKey.Apart (results.groups.map Prod.fst)
  plain : ((∀ entry ∈ results.groups, ':' ∉ entry.1.name.toList) ∨
      ∀ entry ∈ results.groups, ':' ∉ entry.1.path.toList) →
    MatchKey.Apart (results.groups.map Prod.fst)

theorem writesGroups_of_built {results : Results} (built : Built results) :
    WritesGroups results where
  written := rfl
  one_each := by
    rw [members, List.forall₂_map_right_iff, List.forall₂_same]
    exact fun _ _ => rfl
  ascending := ascending_of_built built
  clash := by
    intro a _ b _ different
    rw [MatchKey.text_eq_iff, or_iff_right different]
  distinct := nodup_names_iff built
  recovered := ⟨apart_of_recovered built, recovered_of_apart built⟩
  plain := by
    intro plain
    apply MatchKey.apart_of_no_colon
    simpa only [List.forall_mem_map] using plain

/-- Whatever has been compared, in a session or at once, the report writes each group once, under
names that are different exactly if no two keys overlap. -/
theorem every_group_written :
    (∀ shared steps, Built (Session.run ⟨shared, .empty⟩ steps).results) ∧
      (∀ (engine : Engine) records, Built (engine.compareRecords records)) ∧
      ∀ results, Built results → WritesGroups results := by
  refine ⟨?_, ?_, ?_⟩
  · intro shared steps
    exact built_run .empty steps
  · intro engine records
    exact built_addRecords .empty engine.corpus.entries records
  · intro results built
    exact writesGroups_of_built built

def goldAndSilver : Results :=
  Engine.compareRecords ⟨Session.exactOnly, ⟨[hashedEntry "aa" .exact, hashedEntry "bb" .exact]⟩⟩
    [hashed "bb" "silver::gold.sol", hashed "aa" "gold.sol"]

theorem every_gold_group_written :
    Built (Session.run ⟨Session.goldCorpus, .empty⟩ Session.goldSteps).results ∧
      WritesGroups (Session.run ⟨Session.goldCorpus, .empty⟩ Session.goldSteps).results ∧
      Built goldAndSilver ∧
      goldAndSilver.members.map Prod.fst = ["gold.sol::Gold", "silver::gold.sol::Gold"] ∧
      ∀ entry ∈ goldAndSilver.groups,
        (SortedMap.ofList goldAndSilver.members).lookup entry.1.text = some entry.2.toJson := by
  obtain ⟨runs, engines, writes⟩ := every_group_written
  have session := runs Session.goldCorpus Session.goldSteps
  have built : Built goldAndSilver := engines _ _
  have keys : goldAndSilver.groups.map Prod.fst =
      [⟨"gold.sol", "Gold"⟩, ⟨"silver::gold.sol", "Gold"⟩] := rfl
  have plain : ∀ entry ∈ goldAndSilver.groups, ':' ∉ entry.1.name.toList := by
    have each : ∀ key ∈ goldAndSilver.groups.map Prod.fst, ':' ∉ key.name.toList := by
      rw [keys]
      decide
    exact fun entry mem => each entry.1 (List.mem_map_of_mem mem)
  have apart := (writes goldAndSilver built).plain (.inl plain)
  exact ⟨session, writes _ session, built, rfl,
    (writes goldAndSilver built).recovered.mpr apart⟩

theorem exists_group {results : Results} {history : List Compared}
    (gathered : Gathered results history) {record : Record} {entries : List Entry} {entry : Entry}
    (compared : (record, entries) ∈ history) (found : entry ∈ matching record entries) :
    ∃ group, results.groups.lookup (.ofRecord record) = some group := by
  rw [← Option.ne_none_iff_exists', Ne, lookup_eq_none_iff gathered]
  exact List.ne_nil_of_mem (mem_foundUnder.mpr ⟨_, compared, rfl, found⟩)

def copied (path name : String) : Record :=
  ⟨Model.ofContract (vault name []), (vault name []).digest .sha256, ⟨.sha256, .exact⟩, some path⟩

def overlappingCorpus : SharedCorpus :=
  ⟨⟨[(copied "a" "b::c").toEntry, (copied "a::b" "c").toEntry]⟩, []⟩

def overlappingSteps : List Session.Step :=
  [.compare Session.exactOnly (vault "b::c" []) (some "a"),
    .compare Session.exactOnly (vault "c" []) (some "a::b")]

/-- A session that finds two contracts whose keys are written as one text. -/
def overlapping : Session := Session.run ⟨overlappingCorpus, .empty⟩ overlappingSteps

/-- Two different keys are in one report under one name, so a reader loses one of the groups. -/
theorem group_lost :
    (∃ group, overlapping.results.get? "a" "b::c" = some group) ∧
      (∃ group, overlapping.results.get? "a::b" "c" = some group) ∧
      MatchKey.text ⟨"a", "b::c"⟩ = MatchKey.text ⟨"a::b", "c"⟩ ∧
      ¬(overlapping.results.members.map Prod.fst).Nodup ∧
      ∃ entry ∈ overlapping.results.groups,
        (SortedMap.ofList overlapping.results.members).lookup entry.1.text ≠
          some entry.2.toJson := by
  have start : Gathered (Session.mk overlappingCorpus .empty).results [] := gathered_empty
  have gathered := Session.gathered_run start overlappingSteps
  have first : ∃ group, overlapping.results.groups.lookup ⟨"a", "b::c"⟩ = some group :=
    exists_group gathered List.mem_cons_self
      (mem_matching.mpr ⟨List.mem_cons_self, rfl, rfl⟩)
  have second : ∃ group, overlapping.results.groups.lookup ⟨"a::b", "c"⟩ = some group :=
    exists_group gathered (List.mem_cons_of_mem _ List.mem_cons_self)
      (mem_matching.mpr ⟨List.mem_cons_of_mem _ List.mem_cons_self, rfl, rfl⟩)
  have overlaps : MatchKey.Overlaps ⟨"a", "b::c"⟩ ⟨"a::b", "c"⟩ := .parts "a" "b" "c"
  have built : Built overlapping.results := built_run .empty overlappingSteps
  have crowded : ¬MatchKey.Apart (overlapping.results.groups.map Prod.fst) := by
    intro apart
    obtain ⟨_, presentA⟩ := first
    obtain ⟨_, presentB⟩ := second
    exact apart _ (List.mem_map_of_mem (SortedMap.mem_of_lookup_eq_some presentA)) _
      (List.mem_map_of_mem (SortedMap.mem_of_lookup_eq_some presentB)) overlaps
  refine ⟨first, second, MatchKey.text_eq_of_overlaps overlaps, ?_, ?_⟩
  · rwa [nodup_names_iff built]
  · by_contra none
    refine crowded (apart_of_recovered built fun entry mem => ?_)
    by_contra lost
    exact none ⟨entry, mem, lost⟩

end Results

end ContractTwins
