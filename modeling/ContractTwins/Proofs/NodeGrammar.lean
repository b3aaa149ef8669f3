import ContractTwins.Proofs.WithoutPlaces

/-!
The grammar of nodes: which values lift. It speaks of a value and what stands below it, and not of
trees or of the order of work.
-/
namespace ContractTwins.Syntax

open Outcome

mutual

inductive NodeJson : Json → Prop where
  /-- An object with the name of a kind. Its fields are what their shapes allow, and its other
  members, the places aside, are attributes. -/
  | object {kind : String} {members : List (String × Json)}
      (tagged : members.lookup tagKey = some (.text kind))
      (fields : ∀ field ∈ fieldsOf kind, FieldJson field.shape (members.lookup field.name))
      (others : ∀ member ∈ members, AttributeName kind member.1 → AttributeJson member.2) :
      NodeJson (.object members)

inductive AttributeJson : Json → Prop where
  | null : AttributeJson .null
  | bool (value : Bool) : AttributeJson (.bool value)
  | number (value : Number) : AttributeJson (.number value)
  | text (value : String) : AttributeJson (.text value)
  | list {items : List Json} (each : ∀ item ∈ items, AttributeJson item) :
      AttributeJson (.list items)
  | node {members : List (String × Json)} (isNode : NodeJson (.object members)) :
      AttributeJson (.object members)
  | map {members : List (String × Json)}
      (untagged : ∀ kind, members.lookup tagKey ≠ some (.text kind))
      (each : ∀ member ∈ members, AttributeJson member.2) : AttributeJson (.object members)

/-- What may be written for a field of a shape, none if nothing is written. -/
inductive FieldJson : Shape → Option Json → Prop where
  | text (value : String) : FieldJson .text (some (.text value))
  | contractKind (kind : ContractKind) : FieldJson .contractKind (some (.text kind.name))
  | noText : FieldJson .optionalText none
  | nullText : FieldJson .optionalText (some .null)
  | optionalText (value : String) : FieldJson .optionalText (some (.text value))
  | noFlag : FieldJson .optionalFlag none
  | nullFlag : FieldJson .optionalFlag (some .null)
  | optionalFlag (value : Bool) : FieldJson .optionalFlag (some (.bool value))
  | node {json : Json} (isNode : NodeJson json) : FieldJson .node (some json)
  | noNodes : FieldJson .nodes none
  | nullNodes : FieldJson .nodes (some .null)
  | nodes {items : List Json} (each : ∀ item ∈ items, NodeJson item) :
      FieldJson .nodes (some (.list items))
  | nullWrittenNodes : FieldJson .writtenNodes (some .null)
  | writtenNodes {items : List Json} (each : ∀ item ∈ items, NodeJson item) :
      FieldJson .writtenNodes (some (.list items))

end

section Inversion

variable {shape : Shape} {items : List Json} {members : List (String × Json)}

theorem nodeJson_object_iff :
    NodeJson (.object members) ↔ ∃ kind, members.lookup tagKey = some (.text kind) ∧
      (∀ field ∈ fieldsOf kind, FieldJson field.shape (members.lookup field.name)) ∧
      ∀ member ∈ members, AttributeName kind member.1 → AttributeJson member.2 := by
  constructor
  · intro isNode
    cases isNode with
    | object tagged fields others => exact ⟨_, tagged, fields, others⟩
  · rintro ⟨kind, tagged, fields, others⟩
    exact .object tagged fields others

theorem attributeJson_list_iff :
    AttributeJson (.list items) ↔ ∀ item ∈ items, AttributeJson item := by
  refine ⟨fun isAttribute => ?_, .list⟩
  cases isAttribute with
  | list each => exact each

theorem attributeJson_object_iff :
    AttributeJson (.object members) ↔ NodeJson (.object members) ∨
      (∀ kind, members.lookup tagKey ≠ some (.text kind)) ∧
        ∀ member ∈ members, AttributeJson member.2 := by
  constructor
  · intro isAttribute
    cases isAttribute with
    | node isNode => exact .inl isNode
    | map untagged each => exact .inr ⟨untagged, each⟩
  · rintro (isNode | ⟨untagged, each⟩)
    · exact .node isNode
    · exact .map untagged each

theorem fieldJson_list_iff :
    FieldJson shape (some (.list items)) ↔
      (shape = .nodes ∨ shape = .writtenNodes) ∧ ∀ item ∈ items, NodeJson item := by
  constructor
  · intro isField
    cases isField with
    | nodes each => exact ⟨.inl rfl, each⟩
    | writtenNodes each => exact ⟨.inr rfl, each⟩
    | node isNode => cases isNode
  · rintro ⟨rfl | rfl, each⟩
    · exact .nodes each
    · exact .writtenNodes each

theorem fieldJson_object_iff :
    FieldJson shape (some (.object members)) ↔ shape = .node ∧ NodeJson (.object members) := by
  constructor
  · intro isField
    cases isField with
    | node isNode => exact ⟨rfl, isNode⟩
  · rintro ⟨rfl, isNode⟩
    exact .node isNode

theorem fieldJson_null_iff :
    FieldJson shape (some .null) ↔
      shape = .optionalText ∨ shape = .optionalFlag ∨ shape = .nodes ∨ shape = .writtenNodes := by
  constructor
  · intro isField
    cases isField with
    | node isNode => cases isNode
    | _ => simp
  · rintro (rfl | rfl | rfl | rfl)
    · exact .nullText
    · exact .nullFlag
    · exact .nullNodes
    · exact .nullWrittenNodes

theorem fieldJson_bool_iff {value : Bool} :
    FieldJson shape (some (.bool value)) ↔ shape = .optionalFlag := by
  constructor
  · intro isField
    cases isField with
    | optionalFlag => rfl
    | node isNode => cases isNode
  · rintro rfl
    exact .optionalFlag value

theorem not_fieldJson_number {value : Number} : ¬FieldJson shape (some (.number value)) := by
  intro isField
  cases isField with
  | node isNode => cases isNode

theorem fieldJson_text_iff {value : String} :
    FieldJson shape (some (.text value)) ↔ shape = .text ∨ shape = .optionalText ∨
      shape = .contractKind ∧ ∃ kind : ContractKind, value = kind.name := by
  constructor
  · intro isField
    cases isField with
    | text => exact .inl rfl
    | contractKind kind => exact .inr (.inr ⟨rfl, kind, rfl⟩)
    | optionalText => exact .inr (.inl rfl)
    | node isNode => cases isNode
  · rintro (rfl | rfl | ⟨rfl, kind, rfl⟩)
    · exact .text value
    · exact .optionalText value
    · exact .contractKind kind

end Inversion

theorem succeeds_absentField_iff {kind name : String} {shape : Shape} :
    Succeeds (absentField kind name shape) ↔ FieldJson shape none := by
  constructor
  · rintro ⟨tree, lifted⟩
    cases shape <;> cases lifted
    · exact .noText
    · exact .noFlag
    · exact .noNodes
  · intro isField
    cases isField <;> exact succeeds_ok _

theorem contractKind_ofName?_iff {text : String} :
    (ContractKind.ofName? text).isSome ↔ ∃ kind : ContractKind, text = kind.name := by
  constructor
  · intro named
    obtain ⟨kind, found⟩ := Option.isSome_iff_exists.mp named
    have same := List.find?_some found
    exact ⟨kind, (beq_iff_eq.mp same).symm⟩
  · rintro ⟨kind, rfl⟩
    rw [ContractKind.ofName?_name]
    rfl

/-- A value lifts in each role exactly if the grammar allows it there. -/
structure Accepted (json : Json) : Prop where
  value : Succeeds (liftValue json) ↔ AttributeJson json
  node : Succeeds (liftNode json) ↔ NodeJson json
  field : ∀ kind name shape,
    Succeeds (liftField kind name shape json) ↔ FieldJson shape (some json)

theorem succeeds_assemble_iff {kind : String} {lifted : List (String × Except LiftError Tree)} :
    Succeeds (assemble kind lifted) ↔
      (∀ field ∈ fieldsOf kind, Succeeds (fieldResult kind lifted field)) ∧
        ∀ member ∈ lifted, shapeOf? kind member.1 = none → Succeeds member.2 := by
  rw [assemble, succeeds_pair_iff, succeeds_mapM_iff, succeeds_mapM_iff]
  simp only [succeeds_keyed_iff, List.mem_filter, Option.isNone_iff_eq_none, and_imp]
  rfl

section Object

variable {kind : String} {members : List (String × Json)}

theorem succeeds_fieldResult_iff (each : ∀ member ∈ members, Accepted member.2) {field : Field}
    (mem : field ∈ fieldsOf kind) :
    Succeeds (fieldResult kind (liftMembers kind members) field) ↔
      FieldJson field.shape (members.lookup field.name) := by
  rw [fieldResult, lookup_liftMembers, if_pos (isKept_of_field mem)]
  cases found : members.lookup field.name with
  | none => exact succeeds_absentField_iff
  | some json =>
    rw [Option.map_some, Option.getD_some, liftMember, shapeOf?_eq_some_iff.mpr mem]
    exact (each _ (SortedMap.mem_of_lookup_eq_some found)).field kind field.name field.shape

theorem succeeds_others_iff (each : ∀ member ∈ members, Accepted member.2) :
    (∀ member ∈ liftMembers kind members, shapeOf? kind member.1 = none → Succeeds member.2) ↔
      ∀ member ∈ members, AttributeName kind member.1 → AttributeJson member.2 := by
  rw [liftMembers_eq_map, List.forall_mem_map]
  constructor
  · intro lifts member mem name
    have kept : isKept member.1 := by simp [isKept, name.1, name.2.1]
    have lifted := lifts member (List.mem_filter.mpr ⟨mem, kept⟩) name.2.2
    rw [liftMember, name.2.2] at lifted
    exact (each member mem).value.mp lifted
  · intro attributes member mem unnamed
    obtain ⟨memMembers, kept⟩ := List.mem_filter.mp mem
    simp only [isKept, Bool.not_eq_true', decide_eq_false_iff_not, not_or] at kept
    rw [liftMember, unnamed]
    exact (each member memMembers).value.mpr (attributes member memMembers ⟨kept.1, kept.2, unnamed⟩)

theorem tag?_eq_some_iff_lookup :
    tag? members = some kind ↔ members.lookup tagKey = some (.text kind) := by
  rw [tag?]
  split <;> simp_all

theorem succeeds_liftNode_object_iff (each : ∀ member ∈ members, Accepted member.2) :
    Succeeds (liftNode (.object members)) ↔ NodeJson (.object members) := by
  rw [liftNode, nodeJson_object_iff]
  split
  · rename_i kind tagged
    rw [tag?_eq_some_iff_lookup] at tagged
    have lifts : Succeeds (assemble kind (liftMembers kind members)) ↔
        (∀ field ∈ fieldsOf kind, FieldJson field.shape (members.lookup field.name)) ∧
          ∀ member ∈ members, AttributeName kind member.1 → AttributeJson member.2 := by
      rw [succeeds_assemble_iff, succeeds_others_iff each]
      exact and_congr_left' (forall₂_congr fun field mem => succeeds_fieldResult_iff each mem)
    rw [lifts]
    constructor
    · exact fun grammar => ⟨kind, tagged, grammar⟩
    · rintro ⟨other, named, grammar⟩
      cases tagged.symm.trans named
      exact grammar
  · rename_i untagged
    refine iff_of_false (not_succeeds_error _) ?_
    rintro ⟨kind, tagged, -⟩
    rw [← tag?_eq_some_iff_lookup, untagged] at tagged
    cases tagged

theorem succeeds_liftEntries_iff (each : ∀ member ∈ members, Accepted member.2) :
    Succeeds (liftEntries members) ↔ ∀ member ∈ members, AttributeJson member.2 := by
  rw [liftEntries_eq_mapM, succeeds_mapM_iff]
  simp only [succeeds_keyed_iff]
  exact forall₂_congr fun member mem => (each member mem).value

theorem accepted_object (each : ∀ member ∈ members, Accepted member.2) :
    Accepted (.object members) where
  value := by
    rw [attributeJson_object_iff, liftValue]
    split
    · rename_i kind tagged
      have lookup := tag?_eq_some_iff_lookup.mp tagged
      rw [← succeeds_liftNode_object_iff each, liftNode, tagged]
      exact ⟨.inl, fun grammar => grammar.resolve_right fun map => map.1 kind lookup⟩
    · rename_i untagged
      have noKind : ∀ kind, members.lookup tagKey ≠ some (.text kind) := by
        intro kind tagged
        rw [← tag?_eq_some_iff_lookup, untagged] at tagged
        cases tagged
      have noNode : ¬NodeJson (.object members) := by
        rw [nodeJson_object_iff]
        rintro ⟨kind, tagged, -⟩
        exact noKind kind tagged
      rw [succeeds_map_iff, succeeds_liftEntries_iff each]
      exact ⟨fun each => .inr ⟨noKind, each⟩, fun grammar => (grammar.resolve_left noNode).2⟩
  node := succeeds_liftNode_object_iff each
  field kind name shape := by
    rw [liftField, fieldJson_object_iff]
    split
    · rename_i node
      rw [← succeeds_liftNode_object_iff each, liftNode]
      simp [node]
    · rename_i other
      exact iff_of_false (not_succeeds_error _) fun both => other both.1

end Object

theorem accepted_list {items : List Json} (each : ∀ item ∈ items, Accepted item) :
    Accepted (.list items) where
  value := by
    rw [attributeJson_list_iff, liftValue, succeeds_map_iff, liftItems_eq_mapM, succeeds_mapM_iff]
    exact forall₂_congr fun item mem => (each item mem).value
  node := iff_of_false (not_succeeds_error _) nofun
  field kind name shape := by
    have nodes : Succeeds (liftNodes items) ↔ ∀ item ∈ items, NodeJson item := by
      rw [liftNodes_eq_mapM, succeeds_mapM_iff]
      exact forall₂_congr fun item mem => (each item mem).node
    rw [liftField, fieldJson_list_iff]
    split
    · rename_i holdsNodes
      rw [succeeds_map_iff, nodes, and_iff_right holdsNodes]
    · rename_i other
      exact iff_of_false (not_succeeds_error _) fun both => other both.1

theorem accepted_scalar {json : Json} {tree : Tree} (value : liftValue json = .ok tree)
    (isAttribute : AttributeJson json) (node : liftNode json = .error .notANode)
    (noNode : ¬NodeJson json)
    (field : ∀ kind name shape,
      Succeeds (liftField kind name shape json) ↔ FieldJson shape (some json)) :
    Accepted json where
  value := iff_of_true ⟨tree, value⟩ isAttribute
  node := by
    rw [node]
    exact iff_of_false (not_succeeds_error _) noNode
  field := field

theorem accepted_null : Accepted .null := by
  refine accepted_scalar rfl .null rfl nofun fun kind name shape => ?_
  rw [fieldJson_null_iff]
  cases shape <;> simp [liftField, scalarField]

theorem accepted_bool (value : Bool) : Accepted (.bool value) := by
  refine accepted_scalar rfl (.bool value) rfl nofun fun kind name shape => ?_
  rw [fieldJson_bool_iff]
  cases shape <;> simp [liftField, scalarField]

theorem accepted_number (value : Number) : Accepted (.number value) := by
  refine accepted_scalar rfl (.number value) rfl nofun fun kind name shape => ?_
  refine iff_of_false ?_ not_fieldJson_number
  cases shape <;> simp [liftField, scalarField]

theorem accepted_text (value : String) : Accepted (.text value) := by
  refine accepted_scalar rfl (.text value) rfl nofun fun kind name shape => ?_
  rw [fieldJson_text_iff, ← contractKind_ofName?_iff]
  cases shape with
  | contractKind =>
    by_cases named : (ContractKind.ofName? value).isSome <;> simp [liftField, scalarField, named]
  | _ => simp [liftField, scalarField]

theorem accepted (json : Json) : Accepted json := by
  induction json with
  | null => exact accepted_null
  | bool value => exact accepted_bool value
  | number value => exact accepted_number value
  | text value => exact accepted_text value
  | list items ih => exact accepted_list ih
  | object members ih => exact accepted_object ih

theorem isNode_of_liftNode {json : Json} {tree : Tree} (lifted : liftNode json = .ok tree) :
    tree.IsNode := by
  cases json with
  | object members =>
    rw [liftNode] at lifted
    split at lifted
    · obtain ⟨fields, attributes, rfl, -⟩ := assemble_eq_ok_iff.mp lifted
      exact ⟨_, _, rfl⟩
    · cases lifted
  | _ => cases lifted

theorem succeeds_lift_iff {json : Json} : Succeeds (lift json) ↔ Succeeds (liftNode json) := by
  constructor
  · rintro ⟨node, lifted⟩
    obtain ⟨tree, isTree, -⟩ := bind_eq_ok_iff.mp lifted
    exact ⟨tree, isTree⟩
  · rintro ⟨tree, lifted⟩
    obtain ⟨kind, members, rfl⟩ := isNode_of_liftNode lifted
    exact ⟨⟨kind, members⟩, bind_eq_ok_iff.mpr ⟨_, lifted, rfl⟩⟩

section Places

variable (members : List (String × Json))

theorem tag?_dropPlaces : tag? (dropPlaces members) = tag? members := by
  have kept : decide (tagKey ∉ locationKeys) = true := by decide
  rw [dropPlaces, tag?, tag?,
    SortedMap.lookup_filter_keys (fun name => decide (name ∉ locationKeys)) tagKey, if_pos kept]

theorem liftMembers_dropPlaces (kind : String) :
    liftMembers kind (dropPlaces members) = liftMembers kind members := by
  rw [dropPlaces, liftMembers_eq_map, liftMembers_eq_map, List.filter_filter]
  congr 1
  apply List.filter_congr
  intro member _
  simp [isKept]

theorem lift_dropPlaces : lift (.object (dropPlaces members)) = lift (.object members) := by
  simp only [lift, liftNode, tag?_dropPlaces, liftMembers_dropPlaces]

end Places

/-- Exactly the nodes lift, and what a node says of its place has no part in it. -/
theorem lift_succeeds_iff :
    (∀ json, (∃ node, lift json = .ok node) ↔ NodeJson json) ∧
      ∀ members : List (String × Json),
        lift (.object (members.filter fun member => member.1 ∉ locationKeys)) =
          lift (.object members) :=
  ⟨fun json => succeeds_lift_iff.trans (accepted json).node, lift_dropPlaces⟩

end ContractTwins.Syntax
