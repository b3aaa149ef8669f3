import ContractTwins.Json.Reader
import ContractTwins.Proofs.AscendingKeys
import ContractTwins.Proofs.Outcomes

namespace ContractTwins.Json

open Outcome

inductive Ordered : Json → Prop where
  | null : Ordered .null
  | bool (value : Bool) : Ordered (.bool value)
  | number (value : Number) : Ordered (.number value)
  | text (value : String) : Ordered (.text value)
  | list {items : List Json} (each : ∀ item ∈ items, Ordered item) : Ordered (.list items)
  | object {members : List (String × Json)} (ascending : SortedMap.Ascending members)
      (each : ∀ member ∈ members, Ordered member.2) : Ordered (.object members)

attribute [simp] Ordered.null Ordered.bool Ordered.number Ordered.text

@[simp] theorem ordered_list_iff {items : List Json} :
    Ordered (.list items) ↔ ∀ item ∈ items, Ordered item := by
  refine ⟨fun ordered => ?_, .list⟩
  cases ordered with
  | list each => exact each

@[simp] theorem ordered_object_iff {members : List (String × Json)} :
    Ordered (.object members) ↔
      SortedMap.Ascending members ∧ ∀ member ∈ members, Ordered member.2 := by
  refine ⟨fun ordered => ?_, fun both => .object both.1 both.2⟩
  cases ordered with
  | object ascending each => exact ⟨ascending, each⟩

theorem ordered_ofMembers {members : List (String × Json)}
    (each : ∀ member ∈ members, Ordered member.2) : Ordered (ofMembers members) := by
  refine .object (SortedMap.ascending_ofList members) fun member mem => ?_
  obtain ⟨original, memMembers, same⟩ := List.mem_map.mp (SortedMap.mem_values_ofList mem)
  rw [← same]
  exact each original memMembers

/-- Whatever the scanner reads has a property. -/
def Yields {α : Type} (property : α → Prop) (scan : Scanner α) : Prop :=
  ∀ text scanned, scan text = .ok scanned → property scanned.value

section Scanners

variable {α β : Type} {property : α → Prop}

theorem yields_map {f : α → β} {image : β → Prop} {scan : Scanner α}
    (yields : Yields property scan) (carried : ∀ a, property a → image (f a)) :
    Yields image (scan.map f) := by
  intro text scanned read
  obtain ⟨first, eq, rfl⟩ := map_eq_ok_iff.mp read
  exact carried _ (yields text first eq)

theorem yields_andThen {next : β → Scanner α} {scan : Scanner β}
    (yields : ∀ b, Yields property (next b)) : Yields property (scan.andThen next) := by
  intro text scanned read
  rw [Scanner.andThen] at read
  split at read
  · cases read
  · split at read
    · cases read
    · rename_i b rest _ _ _ last eq
      cases read
      exact yields b rest last eq

theorem yields_items {item : Scanner α} (yields : Yields property item) (first : Bool) :
    Yields (fun list => ∀ a ∈ list, property a) (items item first) := by
  intro text
  fun_induction items item first text with
  | case1 => intro _ read; cases read
  | case2 =>
    intro scanned read
    obtain ⟨_, _, rfl⟩ := map_eq_ok_iff.mp read
    intro a mem
    cases mem
  | case3 => intro _ read; cases read
  | case4 => intro _ read; cases read
  | case5 first text start le _ a rest shorter eq more last shorterLast eqMore ih =>
    intro scanned read
    cases read
    intro b mem
    rcases List.mem_cons.mp mem with rfl | mem
    · exact yields start _ eq
    · exact ih _ eqMore b mem

theorem yields_members {member : String → α → Scanner α}
    (yields : ∀ name state, property state → Yields property (member name state)) (first : Bool)
    {state : α} (start : property state) : Yields property (members member first state) := by
  intro text
  fun_induction members member first state text with
  | case1 => intro _ read; cases read
  | case2 =>
    intro scanned read
    obtain ⟨_, _, rfl⟩ := map_eq_ok_iff.mp read
    exact start
  | case3 => intro _ read; cases read
  | case4 => intro _ read; cases read
  | case5 first state text name later shorter _ next rest shorterRest eq final last _ eqMore ih =>
    intro scanned read
    cases read
    exact ih (yields name state start later _ eq) _ eqMore

end Scanners

theorem letters_value {α : Type} {value : α} {text word rest : List Char}
    {shorter : rest.length < text.length} {scanned : Scanned α text}
    (read : letters α value text word rest shorter = .ok scanned) : scanned.value = value := by
  induction word generalizing rest with
  | nil => cases read; rfl
  | cons letter more ih =>
    cases rest with
    | nil => cases read
    | cons c rest =>
      rw [letters] at read
      split at read
      · exact ih read
      · cases read

theorem yields_valueOf {listTail objectTail : Scanner Json} (list : Yields Ordered listTail)
    (object : Yields Ordered objectTail) : Yields Ordered (valueOf listTail objectTail) := by
  have within : ∀ {scan : Scanner Json} {text rest : List Char} {le : rest.length ≤ text.length}
      {scanned : Scanned Json text}, Yields Ordered scan →
      (scan rest).map (Scanned.within · le) = .ok scanned → Ordered scanned.value := by
    intro scan text rest le scanned yields read
    obtain ⟨first, eq, rfl⟩ := map_eq_ok_iff.mp read
    exact yields rest first eq
  intro text scanned read
  rw [valueOf] at read
  split at read
  · cases read
  · split at read
    · rw [letters_value read]
      exact .null
    split at read
    · rw [letters_value read]
      exact .bool true
    split at read
    · rw [letters_value read]
      exact .bool false
    split at read
    · obtain ⟨_, eq, rfl⟩ := map_eq_ok_iff.mp read
      obtain ⟨number, _, rfl⟩ := map_eq_ok_iff.mp eq
      exact .number number.value
    split at read
    · obtain ⟨number, _, rfl⟩ := map_eq_ok_iff.mp read
      exact .number number.value
    split at read
    · obtain ⟨_, eq, rfl⟩ := map_eq_ok_iff.mp read
      obtain ⟨quoted, _, rfl⟩ := map_eq_ok_iff.mp eq
      exact .text quoted.value
    split at read
    · exact within list read
    split at read
    · exact within object read
    · cases read

theorem yields_memberInto {scan : Scanner Json} (yields : Yields Ordered scan) (name : String)
    {written : List (String × Json)} (ordered : Ordered (.object written)) :
    Yields (fun members => Ordered (.object members)) (memberInto scan name written) := by
  obtain ⟨ascending, each⟩ := ordered_object_iff.mp ordered
  refine yields_andThen fun _ => yields_map yields fun value orderedValue => ?_
  refine .object (SortedMap.ascending_alter name _ ascending) fun member mem => ?_
  rcases SortedMap.mem_of_mem_insert mem with same | mem
  · rw [same]
    exact orderedValue
  · exact each member mem

/-- The reader gives ordered values only, whatever the order of the text's members is. -/
theorem yields_value (depth : Nat) : Yields Ordered (value depth) := by
  induction depth with
  | zero =>
    exact yields_valueOf (fun _ _ read => by cases read) (fun _ _ read => by cases read)
  | succ depth ih =>
    have list := yields_map (yields_items ih true) fun _ each => Ordered.list each
    have object := yields_map
      (yields_members (fun name _ => yields_memberInto ih name) true
        (.object List.Pairwise.nil (by simp)))
      fun _ ordered => ordered
    exact yields_valueOf list object

end ContractTwins.Json
