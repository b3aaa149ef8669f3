import ContractTwins.Proofs.Erasure

/-!
Writing a tree and lifting it again. The well-formed nodes are those that some value lifts to;
erasing does not lead out of them.
-/
namespace ContractTwins.Syntax

open Outcome

namespace Tree

theorem itemsToJson_eq_map (items : List Tree) : itemsToJson items = items.map toJson := by
  induction items with
  | nil => rfl
  | cons item rest ih => rw [itemsToJson, ih, List.map_cons]

theorem entriesToJson_eq_map (entries : List (String × Tree)) :
    entriesToJson entries = entries.map fun entry => (entry.1, entry.2.toJson) := by
  induction entries with
  | nil => rfl
  | cons entry rest ih => rw [entriesToJson, ih, List.map_cons]

theorem eq_text_of_toJson {tree : Tree} {text : String} (written : tree.toJson = .text text) :
    tree = .text text := by
  cases tree with
  | text value => cases written; rfl
  | _ => cases written

theorem keys_entriesToJson (entries : List (String × Tree)) :
    (entriesToJson entries).map Prod.fst = entries.map Prod.fst := by
  rw [entriesToJson_eq_map, List.map_map]
  rfl

end Tree

def nodeMembers (kind : String) (members : List (String × Tree)) : List (String × Json) :=
  (tagKey, .text kind) :: Tree.entriesToJson members

theorem field_name_reserved {kind : String} {field : Field} (mem : field ∈ fieldsOf kind) :
    field.name ≠ tagKey ∧ field.name ∉ locationKeys := by
  have apart := (List.nodup_append.mp (fieldNames_distinct kind)).2.2
  have names : field.name ∈ (fieldsOf kind).map Field.name := List.mem_map_of_mem mem
  exact ⟨fun same => apart _ List.mem_cons_self _ names same.symm,
    fun location => apart _ (List.mem_cons_of_mem _ location) _ names rfl⟩

theorem isKept_of_field {kind : String} {field : Field} (mem : field ∈ fieldsOf kind) :
    isKept field.name := by
  obtain ⟨untagged, unplaced⟩ := field_name_reserved mem
  simp [isKept, untagged, unplaced]

theorem field_keys {expected : List Field} {fields : List (String × Tree)}
    (holds : List.Forall₂ Field.Fits expected fields) : fields.map Prod.fst = expected.map Field.name := by
  induction holds with
  | nil => rfl
  | cons first later ih => rw [List.map_cons, List.map_cons, first.1, ih]

theorem nodup_nodeMembers {kind : String} {members : List (String × Tree)}
    (shaped : WellShaped kind members) : ((nodeMembers kind members).map Prod.fst).Nodup := by
  obtain ⟨fields, attributes, rfl, holds, ascending, names⟩ := shaped
  rw [nodeMembers, List.map_cons, Tree.keys_entriesToJson, List.map_append, field_keys holds,
    List.nodup_cons, List.nodup_append]
  refine ⟨?_, (List.nodup_append.mp (fieldNames_distinct kind)).2.1,
    SortedMap.nodup_of_ascending ascending, ?_⟩
  · intro mem
    rcases List.mem_append.mp mem with mem | mem
    · obtain ⟨field, memField, same⟩ := List.mem_map.mp mem
      exact (field_name_reserved memField).1 same
    · obtain ⟨member, memAttribute, same⟩ := List.mem_map.mp mem
      exact (names member memAttribute).1 same
  · intro a memField b memAttribute same
    obtain ⟨field, memFields, rfl⟩ := List.mem_map.mp memField
    obtain ⟨member, memAttributes, rfl⟩ := List.mem_map.mp memAttribute
    have unnamed := (names member memAttributes).2.2
    rw [← same, shapeOf?_eq_some_iff.mpr memFields] at unnamed
    cases unnamed

theorem nodup_members {kind : String} {members : List (String × Tree)}
    (shaped : WellShaped kind members) : (members.map Prod.fst).Nodup := by
  have distinct := nodup_nodeMembers shaped
  rw [nodeMembers, List.map_cons, Tree.keys_entriesToJson] at distinct
  exact (List.nodup_cons.mp distinct).2

theorem mem_written {kind : String} {members : List (String × Tree)}
    (shaped : WellShaped kind members) {member : String × Json} :
    member ∈ SortedMap.ofList (nodeMembers kind members) ↔ member ∈ nodeMembers kind members :=
  (SortedMap.ofList_perm (nodup_nodeMembers shaped)).mem_iff

theorem tag?_written {kind : String} {members : List (String × Tree)}
    (shaped : WellShaped kind members) :
    tag? (SortedMap.ofList (nodeMembers kind members)) = some kind :=
  (tag?_eq_some_iff (SortedMap.nodup_of_ascending (SortedMap.ascending_ofList _))).mpr
    ((mem_written shaped).mpr List.mem_cons_self)

theorem attributes_written {kind : String} {fields attributes : List (String × Tree)}
    (shaped : WellShaped kind (fields ++ attributes))
    (holds : List.Forall₂ Field.Fits (fieldsOf kind) fields)
    (ascending : SortedMap.Ascending attributes)
    (names : ∀ member ∈ attributes, AttributeName kind member.1) :
    (SortedMap.ofList (nodeMembers kind (fields ++ attributes))).filter
        (fun member => (shapeOf? kind member.1).isNone && isKept member.1) =
      Tree.entriesToJson attributes := by
  have ordered : SortedMap.Ascending (Tree.entriesToJson attributes) := by
    rw [Tree.entriesToJson_eq_map]
    exact SortedMap.ascending_map.mpr ascending
  refine SortedMap.eq_of_perm ((SortedMap.ascending_ofList _).filter _) ordered ?_
  refine ((SortedMap.ofList_perm (nodup_nodeMembers shaped)).filter _).trans ?_
  have noField : (Tree.entriesToJson fields).filter
      (fun member => (shapeOf? kind member.1).isNone && isKept member.1) = [] := by
    rw [List.filter_eq_nil_iff, Tree.entriesToJson_eq_map]
    intro member mem
    obtain ⟨entry, memFields, rfl⟩ := List.mem_map.mp mem
    obtain ⟨field, memField, name, _⟩ := exists_of_mem_right holds memFields
    simp [name, shapeOf?_eq_some_iff.mpr memField]
  have allAttributes : (Tree.entriesToJson attributes).filter
      (fun member => (shapeOf? kind member.1).isNone && isKept member.1) =
        Tree.entriesToJson attributes := by
    rw [List.filter_eq_self, Tree.entriesToJson_eq_map]
    intro member mem
    obtain ⟨entry, memAttributes, rfl⟩ := List.mem_map.mp mem
    obtain ⟨untagged, unplaced, unnamed⟩ := names entry memAttributes
    simp [isKept, untagged, unplaced, unnamed]
  have whole : nodeMembers kind (fields ++ attributes) =
      (tagKey, .text kind) :: (Tree.entriesToJson fields ++ Tree.entriesToJson attributes) := by
    simp [nodeMembers, Tree.entriesToJson_eq_map]
  rw [whole, List.filter_cons, List.filter_append, noField, allAttributes]
  simp [isKept]

theorem fieldResult_of_mem {kind : String} {members : List (String × Json)} {field : Field}
    {value : Json} (distinct : (members.map Prod.fst).Nodup) (memField : field ∈ fieldsOf kind)
    (mem : (field.name, value) ∈ members) :
    fieldResult kind (liftMembers kind members) field = liftMember kind field.name value := by
  have keys : ((liftMembers kind members).map Prod.fst).Nodup := by
    rw [liftMembers_eq_map, List.map_map]
    exact (List.filter_sublist.map Prod.fst).nodup distinct
  have written : (field.name, liftMember kind field.name value) ∈ liftMembers kind members := by
    rw [liftMembers_eq_map]
    exact List.mem_map.mpr ⟨_, List.mem_filter.mpr ⟨mem, isKept_of_field memField⟩, rfl⟩
  rw [fieldResult, (SortedMap.lookup_eq_some_iff_mem keys).mpr written]
  rfl

theorem liftNode_of_liftValue {json : Json} {tree : Tree} (node : tree.IsNode)
    (lifted : liftValue json = .ok tree) : liftNode json = .ok tree := by
  obtain ⟨kind, members, rfl⟩ := node
  cases json with
  | null => cases lifted
  | bool value => cases lifted
  | number value => cases lifted
  | text value => cases lifted
  | list items =>
    obtain ⟨_, _, eq⟩ := map_eq_ok_iff.mp lifted
    cases eq
  | object members =>
    rw [liftValue] at lifted
    rw [liftNode]
    split at lifted
    · exact lifted
    · obtain ⟨_, _, eq⟩ := map_eq_ok_iff.mp lifted
      cases eq

theorem liftNodes_toJson {items : List Tree} (nodes : ∀ item ∈ items, item.IsNode)
    (lifted : liftValue (Tree.list items).toJson = .ok (.list items)) :
    liftNodes (Tree.itemsToJson items) = .ok items := by
  rw [Tree.toJson, liftValue, map_eq_ok_iff] at lifted
  obtain ⟨_, eq, same⟩ := lifted
  cases same
  rw [liftItems_eq_mapM, mapM_eq_ok_iff, Tree.itemsToJson_eq_map, List.forall₂_map_left_iff,
    List.forall₂_same] at eq
  rw [liftNodes_eq_mapM, mapM_eq_ok_iff, Tree.itemsToJson_eq_map, List.forall₂_map_left_iff,
    List.forall₂_same]
  exact fun item mem => liftNode_of_liftValue (nodes item mem) (eq item mem)

theorem liftField_toJson {kind name : String} {shape : Shape} {tree : Tree}
    (holds : shape.Holds tree) (lifted : liftValue tree.toJson = .ok tree) :
    liftField kind name shape tree.toJson = .ok tree := by
  cases shape with
  | text => cases tree <;> first | exact False.elim holds | rfl
  | contractKind => cases tree <;> first | exact False.elim holds | exact if_pos holds
  | optionalText => cases tree <;> first | exact False.elim holds | rfl
  | optionalFlag => cases tree <;> first | exact False.elim holds | rfl
  | node =>
    have node := liftNode_of_liftValue holds lifted
    obtain ⟨below, members, rfl⟩ := holds
    exact node
  | nodes =>
    cases tree with
    | list items => exact map_eq_ok_iff.mpr ⟨items, liftNodes_toJson holds lifted, rfl⟩
    | _ => exact False.elim holds
  | writtenNodes =>
    cases tree with
    | list items => exact map_eq_ok_iff.mpr ⟨items, liftNodes_toJson holds lifted, rfl⟩
    | _ => exact False.elim holds

theorem assemble_written {kind : String} {members : List (String × Tree)}
    (shaped : WellShaped kind members)
    (each : ∀ member ∈ members, liftValue member.2.toJson = .ok member.2) :
    assemble kind (liftMembers kind (SortedMap.ofList (nodeMembers kind members))) =
      .ok (.node kind members) := by
  obtain ⟨fields, attributes, rfl, holds, ascending, names⟩ := id shaped
  refine assemble_eq_ok_iff.mpr ⟨fields, attributes, rfl, ?_, ?_⟩
  · have distinct := SortedMap.nodup_of_ascending
      (SortedMap.ascending_ofList (nodeMembers kind (fields ++ attributes)))
    refine (forall₂_mem holds).imp ?_
    rintro field ⟨key, value⟩ ⟨memField, mem, rfl, held⟩
    have written : (field.name, value.toJson) ∈
        SortedMap.ofList (nodeMembers kind (fields ++ attributes)) := by
      rw [mem_written shaped, nodeMembers, Tree.entriesToJson_eq_map]
      exact List.mem_cons_of_mem _ (List.mem_map.mpr ⟨_, List.mem_append_left _ mem, rfl⟩)
    rw [fieldResult_of_mem distinct memField written, liftMember, shapeOf?_eq_some_iff.mpr memField]
    exact ⟨rfl, liftField_toJson held (each _ (List.mem_append_left _ mem))⟩
  · rw [liftMembers_eq_map, List.filter_map, List.filter_filter, Function.comp_def]
    rw [attributes_written shaped holds ascending names, Tree.entriesToJson_eq_map]
    rw [List.map_map, List.forall₂_map_left_iff, List.forall₂_same]
    intro member mem
    rw [Function.comp_apply, liftMember, (names member mem).2.2]
    exact ⟨rfl, each member (List.mem_append_right _ mem)⟩

section Maps

variable {entries : List (String × Tree)}

theorem toJson_map (ascending : SortedMap.Ascending entries) :
    (Tree.map entries).toJson = .object (Tree.entriesToJson entries) := by
  have ordered : SortedMap.Ascending (Tree.entriesToJson entries) := by
    rw [Tree.entriesToJson_eq_map]
    exact SortedMap.ascending_map.mpr ascending
  rw [Tree.toJson, Json.ofMembers, SortedMap.ofList_eq_self ordered]

theorem tag?_map (untagged : ∀ name, (tagKey, Tree.text name) ∉ entries) :
    tag? (Tree.entriesToJson entries) = none := by
  rw [tag?]
  split
  · rename_i kind tagged
    have written := SortedMap.mem_of_lookup_eq_some tagged
    rw [Tree.entriesToJson_eq_map] at written
    obtain ⟨⟨key, value⟩, mem, same⟩ := List.mem_map.mp written
    obtain ⟨rfl, text⟩ := Prod.mk.inj same
    have held : value = .text kind := Tree.eq_text_of_toJson text
    subst held
    exact absurd mem (untagged kind)
  · rfl

end Maps

section Written

variable {kind : String} {members : List (String × Tree)}

def withTag (kind : String) (members : List (String × Tree)) : List (String × Tree) :=
  (tagKey, .text kind) :: members

theorem lookup_withTag {key : String} (other : key ≠ tagKey) :
    (withTag kind members).lookup key = members.lookup key := by
  rw [withTag, SortedMap.lookup_cons_ite, if_neg other]

theorem toJson_node (kind : String) (members : List (String × Tree)) :
    (Tree.node kind members).toJson = .object (SortedMap.ofList (nodeMembers kind members)) := by
  rw [Tree.toJson]
  rfl

theorem lookup_entriesToJson (entries : List (String × Tree)) (key : String) :
    (Tree.entriesToJson entries).lookup key = (entries.lookup key).map Tree.toJson := by
  rw [Tree.entriesToJson_eq_map, SortedMap.lookup_map_values fun _ => Tree.toJson]

theorem lookup_written (shaped : WellShaped kind members) (key : String) :
    (SortedMap.ofList (nodeMembers kind members)).lookup key =
      ((withTag kind members).lookup key).map Tree.toJson := by
  have distinct := nodup_nodeMembers shaped
  have written : nodeMembers kind members = Tree.entriesToJson (withTag kind members) := rfl
  rw [← SortedMap.lookup_eq_of_perm (SortedMap.ofList_perm distinct).symm distinct, written,
    lookup_entriesToJson]

theorem node_of_written {tree : Tree} {written : List (String × Json)} (well : tree.WellFormed)
    (isObject : tree.toJson = .object written) (tagged : tag? written = some kind) :
    ∃ members, tree = .node kind members ∧ WellShaped kind members ∧
      written = SortedMap.ofList (nodeMembers kind members) := by
  cases well with
  | map ascending untagged each =>
    rw [toJson_map ascending] at isObject
    cases isObject
    rw [tag?_map untagged] at tagged
    cases tagged
  | @node other members shaped each =>
    rw [toJson_node] at isObject
    cases isObject
    rw [tag?_written shaped] at tagged
    cases tagged
    exact ⟨members, rfl, shaped, rfl⟩
  | list each => rw [Tree.toJson] at isObject; cases isObject
  | _ => cases isObject

theorem lookup_field_ne_none (shaped : WellShaped kind members) {key : String} {shape : Shape}
    (named : shapeOf? kind key = some shape) : (withTag kind members).lookup key ≠ none := by
  obtain ⟨fields, attributes, rfl, holds, -, -⟩ := shaped
  have present : key ∈ fields.map Prod.fst := by
    rw [field_keys holds]
    exact List.mem_map_of_mem (shapeOf?_eq_some_iff.mp named)
  obtain ⟨member, mem, rfl⟩ := List.mem_map.mp present
  intro absent
  rw [List.lookup_eq_none_iff] at absent
  simpa using absent member (List.mem_cons_of_mem _ (List.mem_append_left _ mem))

end Written

/-- A well-formed tree lifts back to itself from what it writes. -/
theorem liftValue_toJson {tree : Tree} (well : tree.WellFormed) :
    liftValue tree.toJson = .ok tree := by
  induction well with
  | null => rfl
  | bool value => rfl
  | number value => rfl
  | text value => rfl
  | list each ih =>
    rw [Tree.toJson, liftValue, liftItems_eq_mapM, Tree.itemsToJson_eq_map]
    refine map_eq_ok_iff.mpr ⟨_, mapM_eq_ok_iff.mpr ?_, rfl⟩
    rw [List.forall₂_map_left_iff, List.forall₂_same]
    exact ih
  | @map entries ascending untagged each ih =>
    rw [toJson_map ascending, liftValue, tag?_map untagged, Tree.entriesToJson_eq_map]
    refine map_eq_ok_iff.mpr ⟨_, liftEntries_eq_ok_iff.mpr ?_, rfl⟩
    rw [List.forall₂_map_left_iff, List.forall₂_same]
    exact fun entry mem => ⟨rfl, ih entry mem⟩
  | node shaped each ih =>
    rw [Tree.toJson, Json.ofMembers, liftValue]
    rw [← nodeMembers, tag?_written shaped]
    exact assemble_written shaped ih

theorem lift_toJson {node : Node} (well : node.tree.WellFormed) : lift node.toJson = .ok node := by
  have lifted : liftNode node.tree.toJson = .ok node.tree :=
    liftNode_of_liftValue ⟨node.kind, node.members, rfl⟩ (liftValue_toJson well)
  rw [lift, Node.toJson, lifted]
  rfl

theorem ordered_entriesToJson {entries : List (String × Tree)}
    (each : ∀ entry ∈ entries, entry.2.toJson.Ordered) :
    ∀ member ∈ Tree.entriesToJson entries, member.2.Ordered := by
  rw [Tree.entriesToJson_eq_map, List.forall_mem_map]
  exact each

theorem ordered_toJson (tree : Tree) : tree.toJson.Ordered := by
  induction tree with
  | list items ih =>
    rw [Tree.toJson, Tree.itemsToJson_eq_map]
    exact .list (List.forall_mem_map.mpr ih)
  | map entries ih =>
    rw [Tree.toJson]
    exact Json.ordered_ofMembers (ordered_entriesToJson ih)
  | node kind members ih =>
    rw [Tree.toJson]
    exact Json.ordered_ofMembers
      (List.forall_mem_cons.mpr ⟨.text kind, ordered_entriesToJson ih⟩)
  | _ => rw [Tree.toJson]; simp

theorem lifted_of_lift_toJson {node : Node} (back : lift node.toJson = .ok node) : Lifted node :=
  ⟨node.toJson, ordered_toJson node.tree, back⟩

theorem lifted_iff_wellFormed {node : Node} : Lifted node ↔ node.tree.WellFormed :=
  ⟨wellFormed_of_lifted, fun well => lifted_of_lift_toJson (lift_toJson well)⟩

theorem lifted_erase {node : Node} (lifted : Lifted node) : Lifted node.erase := by
  rw [lifted_iff_wellFormed, Node.tree_erase]
  exact wellFormed_erase _ (wellFormed_of_lifted lifted)

/-- Whatever a value lifts to, and what is left of it once it is erased, lifts back to exactly
itself from what it writes, and then writes the same again. -/
theorem relift {json : Json} {node : Node} (ordered : json.Ordered) (lifted : lift json = .ok node) :
    lift node.toJson = .ok node ∧ lift node.erase.toJson = .ok node.erase ∧
      (lift node.toJson).map Node.toJson = .ok node.toJson := by
  have from_json : Lifted node := ⟨json, ordered, lifted⟩
  have back := lift_toJson (wellFormed_of_lifted from_json)
  have erased := lift_toJson (wellFormed_of_lifted (lifted_erase from_json))
  exact ⟨back, erased, by rw [back]; rfl⟩

/-- An assertion with places, a message in parts, and a map whose kind is no text. -/
def requireCall : Json :=
  .object [("arguments", .list [.object [("loc", .null), ("parts", .list [.text "owner"]),
      ("type", .text "StringLiteral"), ("value", .text "owner")]]),
    ("expression", .object [("name", .text "require"), ("type", .text "Identifier")]),
    ("range", .list [.number (.integer 3)]), ("type", .text "FunctionCall"),
    ("unit", .object [("loc", .bool true), ("type", .null)])]

def requireNode : Node where
  kind := "FunctionCall"
  members :=
    [("expression", .node "Identifier" [("name", .text "require")]),
     ("arguments", .list [.node "StringLiteral"
       [("value", .text "owner"), ("parts", .list [.text "owner"])]]),
     ("unit", .map [("loc", .bool true), ("type", .null)])]

theorem relift_requireCall :
    requireCall.Ordered ∧ lift requireCall = .ok requireNode ∧
      lift requireNode.toJson = .ok requireNode ∧
      lift requireNode.erase.toJson = .ok requireNode.erase ∧
      (lift requireNode.toJson).map Node.toJson = .ok requireNode.toJson := by
  have ordered : requireCall.Ordered := by
    rw [requireCall]
    simp
    decide
  have lifted : lift requireCall = .ok requireNode := rfl
  exact ⟨ordered, lifted, relift ordered lifted⟩

end ContractTwins.Syntax
