import ContractTwins.Proofs.StructuralDigest

/-!
The walk of a node beside the objects of what the node writes. The walk looks at fields and
attributes one after the other, and writing puts all members in order, so the two meet the same
nodes in another order.
-/
namespace ContractTwins

mutual

/-- The objects in a value, at any depth, each by its members. -/
def Json.objects : Json → List (List (String × Json))
  | .object members => members :: objectsInMembers members
  | .list items => objectsInItems items
  | .null | .bool _ | .number _ | .text _ => []

def Json.objectsInItems : List Json → List (List (String × Json))
  | [] => []
  | item :: rest => item.objects ++ objectsInItems rest

def Json.objectsInMembers : List (String × Json) → List (List (String × Json))
  | [] => []
  | (_, value) :: rest => value.objects ++ objectsInMembers rest

end

namespace Json

theorem objectsInItems_eq_flatMap (items : List Json) :
    objectsInItems items = items.flatMap objects := by
  induction items with
  | nil => rfl
  | cons item rest ih => simp [objectsInItems, ih]

theorem objectsInMembers_eq_flatMap (members : List (String × Json)) :
    objectsInMembers members = members.flatMap fun member => member.2.objects := by
  induction members with
  | nil => rfl
  | cons member rest ih => simp [objectsInMembers, ih]

end Json

namespace Syntax

def kindsIn (json : Json) : List String := json.objects.filterMap tag?

theorem kindsIn_list (items : List Json) : kindsIn (.list items) = items.flatMap kindsIn := by
  rw [kindsIn, Json.objects, Json.objectsInItems_eq_flatMap, List.filterMap_flatMap]
  rfl

theorem kindsIn_object (members : List (String × Json)) :
    kindsIn (.object members) =
      (tag? members).toList ++ members.flatMap fun member => kindsIn member.2 := by
  simp only [kindsIn, Json.objects, Json.objectsInMembers_eq_flatMap, List.filterMap_cons,
    List.filterMap_flatMap]
  cases tag? members <;> rfl

namespace Tree

theorem walkItems_eq_flatMap_walk (items : List Tree) : walkItems items = items.flatMap walk := by
  induction items with
  | nil => rfl
  | cons item rest ih => simp [walkItems, ih]

theorem walkEntries_eq_flatMap_walk (entries : List (String × Tree)) :
    walkEntries entries = entries.flatMap fun entry => entry.2.walk := by
  induction entries with
  | nil => rfl
  | cons entry rest ih => simp [walkEntries, ih]

end Tree

/-- What a tree writes names the kinds that its walk meets. -/
theorem kindsIn_toJson {tree : Tree} (well : tree.WellFormed) :
    (kindsIn tree.toJson).Perm (tree.walk.map Node.kind) := by
  induction well with
  | null => exact List.Perm.refl _
  | bool value => exact List.Perm.refl _
  | number value => exact List.Perm.refl _
  | text value => exact List.Perm.refl _
  | list each ih =>
    simp only [Tree.toJson, kindsIn_list, Tree.itemsToJson_eq_map, List.flatMap_map, Tree.walk,
      Tree.walkItems_eq_flatMap_walk, List.map_flatMap]
    exact List.Perm.flatMap_left _ ih
  | map ascending untagged each ih =>
    rw [toJson_map ascending, kindsIn_object, tag?_map untagged]
    simp only [Option.toList_none, List.nil_append, Tree.entriesToJson_eq_map, List.flatMap_map,
      Tree.walk, Tree.walkEntries_eq_flatMap_walk, List.map_flatMap]
    exact List.Perm.flatMap_left _ ih
  | @node kind members shaped each ih =>
    have written : ((SortedMap.ofList (nodeMembers kind members)).flatMap fun member =>
        kindsIn member.2).Perm
          ((nodeMembers kind members).flatMap fun member => kindsIn member.2) :=
      (SortedMap.ofList_perm (nodup_nodeMembers shaped)).flatMap_right _
    rw [toJson_node, kindsIn_object, tag?_written shaped]
    refine (written.append_left _).trans ?_
    -- The kind itself is a text: it stands among the members and names no node.
    simp only [nodeMembers, List.flatMap_cons, kindsIn, Json.objects, List.filterMap_nil,
      List.nil_append, Option.toList_some, List.singleton_append, Tree.entriesToJson_eq_map,
      List.flatMap_map, Tree.walk, Tree.walkEntries_eq_flatMap_walk, List.map_cons,
      List.map_flatMap]
    exact (List.Perm.flatMap_left _ ih).cons kind

section Children

variable {kind : String} {members : List (String × Tree)}

theorem nodesAt_of_mem {name : String} {value : Tree} (distinct : (members.map Prod.fst).Nodup)
    (mem : (name, value) ∈ members) : (Node.mk kind members).nodesAt name = value.outermost := by
  simp only [Node.nodesAt, Node.member?, (SortedMap.lookup_eq_some_iff_mem distinct).mpr mem]

theorem children_eq (shaped : WellShaped kind members) :
    (Node.mk kind members).children =
      ((fieldsOf kind).flatMap fun field => (Node.mk kind members).nodesAt field.name) ++
        (members.filter fun member => (shapeOf? kind member.1).isNone).flatMap fun member =>
          member.2.outermost := by
  have distinct := nodup_members shaped
  obtain ⟨fields, attributes, rfl, holds, -, names⟩ := shaped
  have named : ∀ member ∈ fields, shapeOf? kind member.1 ≠ none := by
    intro member mem
    obtain ⟨field, memField, same, -⟩ := Outcome.exists_of_mem_right holds mem
    simp [same, shapeOf?_eq_some_iff.mpr memField]
  have unnamed : ∀ member ∈ attributes, shapeOf? kind member.1 = none := by
    intro member mem
    exact (names member mem).2.2
  have others : (fields ++ attributes).filter (fun member => (shapeOf? kind member.1).isNone) =
      attributes := by
    rw [List.filter_append, List.filter_eq_nil_iff.mpr (by simpa using named),
      List.filter_eq_self.mpr (by simpa using unnamed), List.nil_append]
  have typed : (fields.flatMap fun member => member.2.outermost) =
      (fieldsOf kind).flatMap fun field =>
        (Node.mk kind (fields ++ attributes)).nodesAt field.name := by
    have stands : ∀ member ∈ fields,
        (Node.mk kind (fields ++ attributes)).nodesAt member.1 = member.2.outermost := by
      intro member mem
      exact nodesAt_of_mem distinct (List.mem_append_left _ mem)
    have keys := congrArg (List.flatMap (Node.mk kind (fields ++ attributes)).nodesAt)
      (field_keys holds)
    rw [List.flatMap_map, List.flatMap_map] at keys
    rw [← keys]
    exact List.flatMap_congr fun member mem => (stands member mem).symm
  rw [Node.children, outermostEntries_eq_flatMap, List.flatMap_append, typed, others]

end Children

/-- Of each kind the walk from a lifted node meets as many nodes as the node writes objects, at any
depth. It begins with the node and goes on with the walks from its children: the nodes of its fields,
in the order of the schema, and then the outermost nodes in its attributes. -/
theorem walk_meets_each_once {node : Node} (lifted : Lifted node) :
    (∀ kind, (node.walk.map Node.kind).count kind =
        node.toJson.objects.countP fun members => tag? members == some kind) ∧
      node.walk = node :: node.children.flatMap Node.walk ∧
      node.children = ((fieldsOf node.kind).flatMap fun field => node.nodesAt field.name) ++
        (node.members.filter fun member => (shapeOf? node.kind member.1).isNone).flatMap
          fun member => member.2.outermost := by
  have well := wellFormed_of_lifted lifted
  refine ⟨?_, node.walk_eq_cons, ?_⟩
  · intro kind
    have perm := kindsIn_toJson well
    rw [← List.count_filterMap]
    exact (perm.count_eq kind).symm
  · cases well with
    | node shaped each => exact children_eq shaped

def pricedCall : Node where
  kind := "FunctionCall"
  members :=
    [("expression", .node "Identifier" [("name", .text "buy")]),
     ("arguments", .list [.node "Identifier" [("name", .text "coin")]]),
     ("options", .list [.map [("gas", .list [.node "NumberLiteral" [("number", .text "9")]])]])]

theorem walk_meets_each_once_in_call :
    Lifted pricedCall ∧
      pricedCall.walk.map Node.kind =
        ["FunctionCall", "Identifier", "Identifier", "NumberLiteral"] ∧
      ∀ kind, (pricedCall.walk.map Node.kind).count kind =
        pricedCall.toJson.objects.countP fun members => tag? members == some kind := by
  have lifted : Lifted pricedCall := lifted_of_lift_toJson rfl
  exact ⟨lifted, rfl, (walk_meets_each_once lifted).1⟩

end Syntax

end ContractTwins
