import ContractTwins.Proofs.Relift

/-!
What lifting keeps of a value. A node loses the places it names, and it gets all fields of its kind,
also those that the value left out; everything else stays.
-/
namespace ContractTwins.Syntax

open Outcome

def Shape.blank : Shape → Json
  | .nodes | .writtenNodes => .list []
  | .text | .contractKind | .optionalText | .optionalFlag | .node => .null

/-- What a field is written as. To be absent and to be null is the same. -/
def Shape.filled (shape : Shape) : Option Json → Json
  | none | some .null => shape.blank
  | some value => value

/-- The members with all fields of a kind among them. -/
def completed (kind : String) (members : List (String × Json)) : List (String × Json) :=
  (fieldsOf kind).foldl
    (fun written field => SortedMap.alter field.name field.shape.filled written) members

section Changing

-- What becomes of the members of a node, given its kind.
variable (change : String → List (String × Json) → List (String × Json))

mutual

/-- Changes the members of all nodes, those below a node first. What is no node keeps its members. -/
def mapNodes : Json → Json
  | .null => .null
  | .bool value => .bool value
  | .number value => .number value
  | .text value => .text value
  | .list items => .list (mapItems items)
  | .object members =>
    match tag? members with
    | some kind => .object (change kind (mapMembers members))
    | none => .object (mapMembers members)

def mapItems : List Json → List Json
  | [] => []
  | item :: rest => mapNodes item :: mapItems rest

def mapMembers : List (String × Json) → List (String × Json)
  | [] => []
  | (key, value) :: rest => (key, mapNodes value) :: mapMembers rest

end

theorem mapItems_eq_map (items : List Json) :
    mapItems change items = items.map (mapNodes change) := by
  induction items with
  | nil => rfl
  | cons item rest ih => rw [mapItems, ih, List.map_cons]

theorem mapMembers_eq_map (members : List (String × Json)) :
    mapMembers change members = members.map fun member => (member.1, mapNodes change member.2) := by
  induction members with
  | nil => rfl
  | cons member rest ih => rw [mapMembers, ih, List.map_cons]

theorem lookup_mapMembers (name : String) (members : List (String × Json)) :
    (mapMembers change members).lookup name = (members.lookup name).map (mapNodes change) := by
  rw [mapMembers_eq_map]
  exact SortedMap.lookup_map_values (fun _ => mapNodes change) name members

theorem ascending_mapMembers {members : List (String × Json)}
    (ascending : SortedMap.Ascending members) :
    SortedMap.Ascending (mapMembers change members) := by
  rw [mapMembers_eq_map]
  exact SortedMap.ascending_map.mpr ascending

end Changing

def dropPlaces (members : List (String × Json)) : List (String × Json) :=
  members.filter fun member => member.1 ∉ locationKeys

def filledNode (kind : String) (members : List (String × Json)) : List (String × Json) :=
  completed kind (dropPlaces members)

def withoutPlaces : Json → Json := mapNodes filledNode

theorem withoutPlaces_eq_null {json : Json} (null : withoutPlaces json = .null) : json = .null := by
  cases json with
  | null => rfl
  | object members =>
    rw [withoutPlaces, mapNodes] at null
    split at null <;> cases null
  | _ => cases null

theorem filled_of_ne_null {shape : Shape} {json : Json} (some_value : json ≠ .null) :
    shape.filled (some (withoutPlaces json)) = withoutPlaces json := by
  have written : withoutPlaces json ≠ .null := fun null => some_value (withoutPlaces_eq_null null)
  cases eq : withoutPlaces json with
  | null => exact absurd eq written
  | _ => rfl

section Fields

theorem lookup_fields {α : Type} (kind key : String) (value : Field → α) :
    ((fieldsOf kind).map fun field => (field.name, value field)).lookup key =
      (shapeOf? kind key).map fun shape => value ⟨key, shape⟩ := by
  rw [shapeOf?]
  induction fieldsOf kind with
  | nil => rfl
  | cons field rest ih =>
    obtain ⟨name, shape⟩ := field
    rw [List.map_cons, SortedMap.lookup_cons_ite, List.find?_cons, ih]
    by_cases same : key = name
    · simp [same]
    · rw [if_neg same, beq_eq_false_iff_ne.mpr (Ne.symm same)]

theorem ascending_completed (kind : String) {members : List (String × Json)}
    (ascending : SortedMap.Ascending members) : SortedMap.Ascending (completed kind members) := by
  rw [completed]
  induction fieldsOf kind generalizing members with
  | nil => exact ascending
  | cons field rest ih => exact ih (SortedMap.ascending_alter field.name _ ascending)

theorem lookup_completed (kind key : String) {members : List (String × Json)}
    (ascending : SortedMap.Ascending members) :
    (completed kind members).lookup key =
      match shapeOf? kind key with
      | some shape => some (shape.filled (members.lookup key))
      | none => members.lookup key := by
  have distinct : ((fieldsOf kind).map Field.name).Nodup :=
    (List.nodup_append.mp (fieldNames_distinct kind)).2.1
  rw [completed, shapeOf?]
  revert distinct
  induction fieldsOf kind generalizing members with
  | nil => exact fun _ => rfl
  | cons field rest ih =>
    intro distinct
    obtain ⟨name, shape⟩ := field
    rw [List.map_cons, List.nodup_cons] at distinct
    rw [List.foldl_cons, ih (SortedMap.ascending_alter name _ ascending) distinct.2,
      SortedMap.lookup_alter _ _ _ ascending, List.find?_cons]
    by_cases same : key = name
    · subst same
      have absent : rest.find? (fun field => field.name == key) = none := by
        rw [List.find?_eq_none]
        intro field mem named
        exact distinct.1 (List.mem_map.mpr ⟨field, mem, eq_of_beq named⟩)
      simp [absent]
    · simp [same, beq_eq_false_iff_ne.mpr (Ne.symm same)]

end Fields

theorem liftValue_of_liftNode {json : Json} {tree : Tree} (lifted : liftNode json = .ok tree) :
    liftValue json = .ok tree := by
  cases json with
  | object members =>
    rw [liftNode] at lifted
    rw [liftValue]
    split at lifted
    · exact lifted
    · cases lifted
  | _ => cases lifted

theorem liftValue_of_scalarField {kind name : String} {shape : Shape} {json : Json} {tree : Tree}
    (lifted : scalarField kind name shape json = .ok tree) : liftValue json = .ok tree := by
  revert lifted
  fun_cases scalarField kind name shape json <;> intro lifted <;> cases lifted
  all_goals rfl

/-- A field that has a value holds what the value is lifted to anywhere. -/
theorem liftValue_of_liftField {kind name : String} {shape : Shape} {json : Json} {tree : Tree}
    (some_value : json ≠ .null) (lifted : liftField kind name shape json = .ok tree) :
    liftValue json = .ok tree := by
  cases json with
  | null => exact absurd rfl some_value
  | list items =>
    rw [liftField] at lifted
    split at lifted
    · obtain ⟨trees, eq, rfl⟩ := map_eq_ok_iff.mp lifted
      rw [liftNodes_eq_mapM, mapM_eq_ok_iff] at eq
      rw [liftValue, liftItems_eq_mapM]
      refine map_eq_ok_iff.mpr ⟨trees, mapM_eq_ok_iff.mpr ?_, rfl⟩
      exact eq.imp fun _ _ node => liftValue_of_liftNode node
    · cases lifted
  | object members =>
    rw [liftField] at lifted
    split at lifted
    · exact liftValue_of_liftNode lifted
    · cases lifted
  | bool value => exact liftValue_of_scalarField lifted
  | number value => exact liftValue_of_scalarField lifted
  | text value => exact liftValue_of_scalarField lifted

theorem toJson_of_blankField {kind name : String} {shape : Shape} {tree : Tree}
    (lifted : liftField kind name shape .null = .ok tree ∨ absentField kind name shape = .ok tree) :
    tree.toJson = shape.blank := by
  cases shape <;> rcases lifted with lifted | lifted <;> cases lifted <;> rfl

def WritesBack (json : Json) : Prop :=
  ∀ tree, liftValue json = .ok tree → tree.toJson = withoutPlaces json

section Nodes

variable {kind : String} {members : List (String × Json)}

theorem lookup_liftMembers (name : String) :
    (liftMembers kind members).lookup name =
      if isKept name then (members.lookup name).map (liftMember kind name) else none := by
  rw [liftMembers_eq_map, SortedMap.lookup_map_values (liftMember kind) name, SortedMap.lookup_filter_keys]
  split <;> rfl

theorem toJson_of_fieldResult (each : ∀ member ∈ members, WritesBack member.2) {field : Field}
    (mem : field ∈ fieldsOf kind) {tree : Tree}
    (lifted : fieldResult kind (liftMembers kind members) field = .ok tree) :
    tree.toJson = field.shape.filled ((mapMembers filledNode members).lookup field.name) := by
  rw [fieldResult, lookup_liftMembers, if_pos (isKept_of_field mem)] at lifted
  rw [lookup_mapMembers]
  cases found : members.lookup field.name with
  | none =>
    rw [found] at lifted
    exact toJson_of_blankField (.inr lifted)
  | some json =>
    rw [found, Option.map_some, Option.getD_some, liftMember, shapeOf?_eq_some_iff.mpr mem] at lifted
    by_cases null : json = .null
    · subst null
      exact toJson_of_blankField (.inl lifted)
    · rw [Option.map_some, ← withoutPlaces, filled_of_ne_null null]
      exact each _ (SortedMap.mem_of_lookup_eq_some found) _ (liftValue_of_liftField null lifted)

theorem entriesToJson_of_pairs {α : Type} {written : α → String × Json} {list : List α}
    {entries : List (String × Tree)}
    (pairs : List.Forall₂ (fun a entry => entry.1 = (written a).1 ∧ entry.2.toJson = (written a).2)
      list entries) : Tree.entriesToJson entries = list.map written := by
  rw [Tree.entriesToJson_eq_map]
  induction pairs with
  | nil => rfl
  | cons first later ih => rw [List.map_cons, List.map_cons, ih, first.1, first.2]

theorem fields_written (each : ∀ member ∈ members, WritesBack member.2)
    {fields : List (String × Tree)}
    (holds : List.Forall₂
      (fun field member =>
        member.1 = field.name ∧ fieldResult kind (liftMembers kind members) field = .ok member.2)
      (fieldsOf kind) fields) :
    Tree.entriesToJson fields = (fieldsOf kind).map fun field =>
      (field.name, field.shape.filled ((mapMembers filledNode members).lookup field.name)) := by
  refine entriesToJson_of_pairs ((forall₂_mem holds).imp ?_)
  rintro field entry ⟨mem, -, name, result⟩
  exact ⟨name, toJson_of_fieldResult each mem result⟩

theorem others_written (each : ∀ member ∈ members, WritesBack member.2)
    {attributes : List (String × Tree)}
    (others : List.Forall₂ (fun result member => member.1 = result.1 ∧ result.2 = .ok member.2)
      ((liftMembers kind members).filter fun member => (shapeOf? kind member.1).isNone) attributes) :
    Tree.entriesToJson attributes = (mapMembers filledNode members).filter fun member =>
      (shapeOf? kind member.1).isNone && isKept member.1 := by
  rw [mapMembers_eq_map, List.filter_map]
  rw [liftMembers_eq_map, List.filter_map, List.filter_filter, List.forall₂_map_left_iff] at others
  refine entriesToJson_of_pairs ((forall₂_mem others).imp ?_)
  rintro member entry ⟨mem, -, name, lifted⟩
  obtain ⟨memMembers, kept⟩ := List.mem_filter.mp mem
  have unnamed : shapeOf? kind member.1 = none :=
    Option.isNone_iff_eq_none.mp ((Bool.and_eq_true_iff.mp kept).1)
  rw [liftMember, unnamed] at lifted
  exact ⟨name, each member memMembers _ lifted⟩

theorem lookup_nodeMembers (each : ∀ member ∈ members, WritesBack member.2)
    {fields attributes : List (String × Tree)}
    (holds : List.Forall₂
      (fun field member =>
        member.1 = field.name ∧ fieldResult kind (liftMembers kind members) field = .ok member.2)
      (fieldsOf kind) fields)
    (others : List.Forall₂ (fun result member => member.1 = result.1 ∧ result.2 = .ok member.2)
      ((liftMembers kind members).filter fun member => (shapeOf? kind member.1).isNone) attributes)
    (key : String) :
    (nodeMembers kind (fields ++ attributes)).lookup key =
      if key = tagKey then some (.text kind)
      else match shapeOf? kind key with
        | some shape => some (shape.filled ((mapMembers filledNode members).lookup key))
        | none => if isKept key then (mapMembers filledNode members).lookup key else none := by
  have parts : Tree.entriesToJson (fields ++ attributes) =
      Tree.entriesToJson fields ++ Tree.entriesToJson attributes := by
    simp [Tree.entriesToJson_eq_map]
  rw [nodeMembers, SortedMap.lookup_cons_ite, parts, SortedMap.lookup_append, fields_written each holds,
    others_written each others, lookup_fields,
    SortedMap.lookup_filter_keys fun name => (shapeOf? kind name).isNone && isKept name]
  cases shapeOf? kind key <;> simp

theorem toJson_of_assemble (ascending : SortedMap.Ascending members)
    (well : ∀ member ∈ members, LiftsWell member.2) (tagged : tag? members = some kind)
    (each : ∀ member ∈ members, WritesBack member.2) {tree : Tree}
    (lifted : assemble kind (liftMembers kind members) = .ok tree) :
    tree.toJson = withoutPlaces (.object members) := by
  obtain ⟨wellFormed, -⟩ := assemble_holds ascending well lifted
  obtain ⟨fields, attributes, rfl, holds, others⟩ := assemble_eq_ok_iff.mp lifted
  have distinct : ((nodeMembers kind (fields ++ attributes)).map Prod.fst).Nodup := by
    cases wellFormed with
    | node shaped _ => exact nodup_nodeMembers shaped
  have ordered : SortedMap.Ascending
      (dropPlaces (mapMembers filledNode members)) :=
    (ascending_mapMembers filledNode ascending).filter _
  have kindWritten : (mapMembers filledNode members).lookup tagKey = some (.text kind) := by
    have once := SortedMap.nodup_of_ascending ascending
    rw [lookup_mapMembers,
      (SortedMap.lookup_eq_some_iff_mem once).mpr ((tag?_eq_some_iff once).mp tagged)]
    rfl
  rw [withoutPlaces, mapNodes, tagged, Tree.toJson, ← nodeMembers, Json.ofMembers]
  congr 1
  refine SortedMap.eq_of_lookup_eq (SortedMap.ascending_ofList _)
    (ascending_completed kind ordered) fun key => ?_
  rw [← SortedMap.lookup_eq_of_perm (SortedMap.ofList_perm distinct).symm distinct,
    lookup_nodeMembers each holds others, filledNode, lookup_completed kind key ordered, dropPlaces,
    SortedMap.lookup_filter_keys fun name => decide (name ∉ locationKeys)]
  -- A key is the kind's, a place, a field's or another one; only places are lost.
  cases named : shapeOf? kind key with
  | some shape =>
    obtain ⟨untagged, unplaced⟩ := field_name_reserved (shapeOf?_eq_some_iff.mp named)
    simp only [untagged, unplaced, if_false, not_false_eq_true, decide_true, if_true]
  | none =>
    by_cases tag : key = tagKey
    · subst tag
      have unplaced : tagKey ∉ locationKeys := by decide
      simp [kindWritten, unplaced]
    · simp [tag, isKept]

end Nodes

theorem writesBack_of_ordered {json : Json} (ordered : json.Ordered) : WritesBack json := by
  induction ordered with
  | null => rintro _ ⟨⟩; rfl
  | bool value => rintro _ ⟨⟩; rfl
  | number value => rintro _ ⟨⟩; rfl
  | text value => rintro _ ⟨⟩; rfl
  | list each ih =>
    intro tree lifted
    rw [liftValue] at lifted
    obtain ⟨trees, eq, rfl⟩ := map_eq_ok_iff.mp lifted
    rw [liftItems_eq_mapM, mapM_eq_ok_iff] at eq
    rw [Tree.toJson, withoutPlaces, mapNodes, Tree.itemsToJson_eq_map, mapItems_eq_map]
    congr 1
    rw [← List.forall₂_eq_eq_eq, List.forall₂_map_left_iff, List.forall₂_map_right_iff]
    refine ((forall₂_mem eq).imp ?_).flip
    rintro item tree ⟨mem, -, lifted⟩
    exact ih item mem tree lifted
  | @object members ascending each ih =>
    intro tree lifted
    have well : ∀ member ∈ members, LiftsWell member.2 := fun member mem =>
      liftsWell_of_ordered (each member mem)
    cases tagged : tag? members with
    | some kind =>
      rw [liftValue, tagged] at lifted
      exact toJson_of_assemble ascending well tagged ih lifted
    | none =>
      rw [liftValue, tagged] at lifted
      obtain ⟨entries, eq, rfl⟩ := map_eq_ok_iff.mp lifted
      rw [liftEntries_eq_ok_iff] at eq
      have written : Tree.entriesToJson entries = mapMembers filledNode members := by
        rw [mapMembers_eq_map]
        refine entriesToJson_of_pairs ((forall₂_mem eq).imp ?_)
        rintro member entry ⟨mem, -, name, lifted⟩
        exact ⟨name, ih member mem _ lifted⟩
      have ordered := ascending_mapMembers filledNode ascending
      rw [Tree.toJson, written, Json.ofMembers, SortedMap.ofList_eq_self ordered, withoutPlaces,
        mapNodes, tagged]

/-- A lifted node writes its value again: the same at every depth, but that nodes have no places,
and all fields of their kinds. -/
theorem toJson_of_lift {json : Json} {node : Node} (ordered : json.Ordered)
    (lifted : lift json = .ok node) : node.toJson = withoutPlaces json := by
  rw [lift, bind_eq_ok_iff] at lifted
  obtain ⟨tree, lifted, same⟩ := lifted
  split at same
  · cases same
    exact writesBack_of_ordered ordered _ (liftValue_of_liftNode lifted)
  · cases same

def sparseUnit : Json :=
  .object [("children", .null),
    ("events", .list [.object [("loc", .null), ("type", .text "EventDefinition")]]),
    ("range", .list [.number (.integer 3)]), ("type", .text "SourceUnit"),
    ("unit", .object [("loc", .bool true), ("range", .null), ("type", .null)])]

def sparseNode : Node where
  kind := "SourceUnit"
  members :=
    [("children", .list []),
     ("events", .list [.node "EventDefinition" [("name", .null), ("isAnonymous", .null)]]),
     ("unit", .map [("loc", .bool true), ("range", .null), ("type", .null)])]

theorem toJson_of_lift_sparseUnit :
    sparseUnit.Ordered ∧ lift sparseUnit = .ok sparseNode ∧
      sparseNode.toJson = withoutPlaces sparseUnit ∧
      withoutPlaces sparseUnit = .object [("children", .list []),
        ("events", .list [.object [("isAnonymous", .null), ("name", .null),
          ("type", .text "EventDefinition")]]),
        ("type", .text "SourceUnit"),
        ("unit", .object [("loc", .bool true), ("range", .null), ("type", .null)])] := by
  have ordered : sparseUnit.Ordered := by
    rw [sparseUnit]
    simp
    decide
  have lifted : lift sparseUnit = .ok sparseNode := rfl
  exact ⟨ordered, lifted, toJson_of_lift ordered lifted, rfl⟩

end ContractTwins.Syntax
