import ContractTwins.Fingerprint.Record
import ContractTwins.Proofs.NodeGrammar

/-!
A node drops its places before any of its members is lifted, so they decide neither the tree nor
which error is met first.
-/
namespace ContractTwins.Syntax

open Outcome (mapM_congr)

/-- The value with no places in its nodes, at any depth. -/
def unplaced : Json → Json := mapNodes fun _ => dropPlaces

def membersUnplaced : List (String × Json) → List (String × Json) :=
  mapMembers fun _ => dropPlaces

theorem unplaced_list (items : List Json) : unplaced (.list items) = .list (items.map unplaced) := by
  rw [unplaced, mapNodes, mapItems_eq_map]

theorem membersUnplaced_eq_map (members : List (String × Json)) :
    membersUnplaced members = members.map fun member => (member.1, unplaced member.2) :=
  mapMembers_eq_map _ members

section Objects

variable {members : List (String × Json)}

theorem unplaced_node {kind : String} (tagged : tag? members = some kind) :
    unplaced (.object members) = .object (dropPlaces (membersUnplaced members)) := by
  simp only [unplaced, mapNodes, tagged, membersUnplaced]

theorem unplaced_untagged (untagged : tag? members = none) :
    unplaced (.object members) = .object (membersUnplaced members) := by
  simp only [unplaced, mapNodes, untagged, membersUnplaced]

end Objects

theorem unplaced_eq_text_iff {json : Json} {text : String} :
    unplaced json = .text text ↔ json = .text text := by
  cases json with
  | object members =>
    rw [unplaced, mapNodes]
    split <;> simp
  | _ => simp [unplaced, mapNodes]

structure LiftsUnplaced (json : Json) : Prop where
  value : liftValue (unplaced json) = liftValue json
  node : liftNode (unplaced json) = liftNode json
  field : ∀ kind name shape,
    liftField kind name shape (unplaced json) = liftField kind name shape json

theorem liftsUnplaced_list {items : List Json} (each : ∀ item ∈ items, LiftsUnplaced item) :
    LiftsUnplaced (.list items) := by
  have nodes : liftNodes (items.map unplaced) = liftNodes items := by
    simp only [liftNodes_eq_mapM, List.mapM_map]
    exact mapM_congr fun item mem => (each item mem).node
  have values : liftItems (items.map unplaced) = liftItems items := by
    simp only [liftItems_eq_mapM, List.mapM_map]
    exact mapM_congr fun item mem => (each item mem).value
  constructor
  · simp only [unplaced_list, liftValue, values]
  · rfl
  · intro kind name shape
    simp only [unplaced_list, liftField, nodes]

section Object

variable {members : List (String × Json)}

theorem tag?_membersUnplaced : tag? (membersUnplaced members) = tag? members := by
  refine Option.ext fun kind => ?_
  simp only [tag?_eq_some_iff_lookup, membersUnplaced_eq_map,
    SortedMap.lookup_map_values fun _ => unplaced, Option.map_eq_some_iff, unplaced_eq_text_iff,
    exists_eq_right]

theorem liftMembers_unplaced (each : ∀ member ∈ members, LiftsUnplaced member.2) (kind : String) :
    liftMembers kind (membersUnplaced members) = liftMembers kind members := by
  have lifted : ∀ member ∈ members,
      liftMember kind member.1 (unplaced member.2) = liftMember kind member.1 member.2 := by
    intro member mem
    unfold liftMember
    split
    · exact (each member mem).field _ _ _
    · exact (each member mem).value
  simp only [liftMembers_eq_map, membersUnplaced_eq_map, List.filter_map, List.map_map]
  apply List.map_congr_left
  intro member mem
  simp [lifted member (List.mem_of_mem_filter mem)]

theorem liftEntries_unplaced (each : ∀ member ∈ members, LiftsUnplaced member.2) :
    liftEntries (membersUnplaced members) = liftEntries members := by
  simp only [liftEntries_eq_mapM, membersUnplaced_eq_map, List.mapM_map]
  apply mapM_congr
  intro member mem
  simp [(each member mem).value]

theorem liftsUnplaced_object (each : ∀ member ∈ members, LiftsUnplaced member.2) :
    LiftsUnplaced (.object members) := by
  have lifted := liftMembers_unplaced each
  cases tagged : tag? members with
  | none =>
    have written := unplaced_untagged tagged
    have untagged := tag?_membersUnplaced.trans tagged
    constructor
    · simp only [written, liftValue, tagged, untagged, liftEntries_unplaced each]
    · simp only [written, liftNode, tagged, untagged]
    · intro kind name shape
      simp only [written, liftField, tagged, untagged]
  | some below =>
    have written := unplaced_node tagged
    have kept : tag? (dropPlaces (membersUnplaced members)) = some below := by
      rw [tag?_dropPlaces, tag?_membersUnplaced, tagged]
    have dropped := liftMembers_dropPlaces (membersUnplaced members)
    constructor
    · simp only [written, liftValue, tagged, kept, dropped, lifted]
    · simp only [written, liftNode, tagged, kept, dropped, lifted]
    · intro kind name shape
      simp only [written, liftField, tagged, kept, dropped, lifted]

end Object

theorem liftsUnplaced (json : Json) : LiftsUnplaced json := by
  induction json with
  | list items ih => exact liftsUnplaced_list ih
  | object members ih => exact liftsUnplaced_object ih
  | _ => exact ⟨rfl, rfl, fun _ _ _ => rfl⟩

theorem lift_unplaced (json : Json) : lift (unplaced json) = lift json := by
  simp only [lift, (liftsUnplaced json).node]

/-- Values that differ in the places of their nodes only have one outcome: one tree or one error, and
with it the same records, or the same error, under all options. -/
theorem lift_of_unplaced_eq {a b : Json} (same : unplaced a = unplaced b) :
    lift a = lift b ∧
      ∀ options path, fingerprintJson a options path = fingerprintJson b options path := by
  have lifted : lift a = lift b := by
    rw [← lift_unplaced a, same, lift_unplaced b]
  refine ⟨lifted, ?_⟩
  intro options path
  simp only [fingerprintJson, lifted]

/-- A source unit whose contract has a place that is no node, and a map that keeps its place. -/
def placedUnit : Json :=
  .object [("children", .list [.object [("baseContracts", .list []), ("kind", .text "contract"),
      ("loc", .object [("name", .bool true), ("type", .text "Identifier")]),
      ("name", .text "Vault"), ("subNodes", .list []), ("type", .text "ContractDefinition")]]),
    ("range", .null), ("type", .text "SourceUnit"),
    ("unit", .object [("loc", .list [.object [("range", .text "0"), ("type", .text "Mark")]])])]

def unplacedUnit : Json :=
  .object [("children", .list [.object [("baseContracts", .list []), ("kind", .text "contract"),
      ("name", .text "Vault"), ("subNodes", .list []), ("type", .text "ContractDefinition")]]),
    ("type", .text "SourceUnit"),
    ("unit", .object [("loc", .list [.object [("type", .text "Mark")]])])]

theorem lift_of_unplaced_eq_units :
    unplaced placedUnit = unplaced unplacedUnit ∧ Outcome.Succeeds (lift unplacedUnit) ∧
      lift placedUnit = lift unplacedUnit ∧
      ∀ options path,
        fingerprintJson placedUnit options path = fingerprintJson unplacedUnit options path := by
  have same : unplaced placedUnit = unplaced unplacedUnit := rfl
  exact ⟨same, ⟨_, rfl⟩, lift_of_unplaced_eq same⟩

end ContractTwins.Syntax
