import ContractTwins.Proofs.Utf8Order
import ContractTwins.Proofs.WalkedNodes

/-!
The keys under which a node is written: that of its kind, its fields and its attributes. None of
them is written over another.
-/
namespace ContractTwins

namespace Json

def KeysAscend (members : List (String × Json)) : Prop :=
  (members.map Prod.fst).Pairwise fun first second => Text.bytes first < Text.bytes second

theorem nodup_of_keysAscend {members : List (String × Json)} (ascend : KeysAscend members) :
    (members.map Prod.fst).Nodup := by
  refine List.Pairwise.imp (fun lower same => ?_) ascend
  rw [same] at lower
  exact List.lt_irrefl _ lower

theorem keysAscend_of_ascending {members : List (String × Json)}
    (ascending : SortedMap.Ascending members) : KeysAscend members := by
  rw [KeysAscend, List.pairwise_map]
  refine List.Pairwise.imp (fun lower => ?_) ascending
  exact Text.bytes_lt_bytes (compareOfLessAndEq_eq_lt.mp lower)

theorem keysAscend_of_ordered {json : Json} (ordered : json.Ordered) :
    ∀ members ∈ json.objects, KeysAscend members := by
  induction ordered with
  | list each ih =>
    intro members mem
    rw [objects, objectsInItems_eq_flatMap] at mem
    obtain ⟨item, memItems, inside⟩ := List.mem_flatMap.mp mem
    exact ih item memItems members inside
  | object ascending each ih =>
    intro members mem
    rw [objects, objectsInMembers_eq_flatMap] at mem
    rcases List.mem_cons.mp mem with rfl | mem
    · exact keysAscend_of_ascending ascending
    · obtain ⟨member, memMembers, inside⟩ := List.mem_flatMap.mp mem
      exact ih member memMembers members inside
  | _ =>
    intro members mem
    cases mem

theorem ordered_replaceMember {json value : Json} (key : String) (ordered : json.Ordered)
    (orderedValue : value.Ordered) : (json.replaceMember key value).Ordered := by
  cases ordered with
  | @object members ascending each =>
    have keys : SortedMap.Ascending (SortedMap.replace key value members) := by
      rw [SortedMap.Ascending, ← List.pairwise_map (f := Prod.fst)
        (R := fun first second => compare first second = .lt), SortedMap.keys_replace,
        List.pairwise_map]
      exact ascending
    refine .object keys fun member mem => ?_
    obtain ⟨original, memMembers, rfl⟩ := List.mem_map.mp mem
    split
    · exact orderedValue
    · exact each original memMembers
  | list each => exact .list each
  | _ => constructor

def memberText (member : String × Json) : List Char :=
  quoted member.1 ++ ':' :: compact member.2

theorem compactMembers_eq_intercalate (members : List (String × Json)) :
    compactMembers members = [','].intercalate (members.map memberText) := by
  induction members with
  | nil => rfl
  | cons member rest ih =>
    cases rest with
    | nil => simp [compactMembers, memberText]
    | cons next more =>
      have tail : membersTail (next :: more) = ',' :: compactMembers (next :: more) := rfl
      rw [compactMembers_cons, tail, ih]
      simp only [List.map_cons, List.intercalate_cons_cons, memberText, List.append_assoc,
        List.cons_append, List.nil_append]

end Json

namespace Syntax

theorem wellFormed_walk {tree : Tree} (well : tree.WellFormed) :
    ∀ below ∈ tree.walk, below.tree.WellFormed := by
  intro below mem
  induction well with
  | list each ih =>
    rw [Tree.walk, Tree.walkItems_eq_flatMap_walk] at mem
    obtain ⟨item, memItems, inside⟩ := List.mem_flatMap.mp mem
    exact ih item memItems inside
  | map ascending untagged each ih =>
    rw [Tree.walk, Tree.walkEntries_eq_flatMap_walk] at mem
    obtain ⟨entry, memEntries, inside⟩ := List.mem_flatMap.mp mem
    exact ih entry memEntries inside
  | node shaped each ih =>
    rw [Tree.walk, Tree.walkEntries_eq_flatMap_walk] at mem
    rcases List.mem_cons.mp mem with rfl | mem
    · exact .node shaped each
    · obtain ⟨member, memMembers, inside⟩ := List.mem_flatMap.mp mem
      exact ih member memMembers inside
  | _ => cases mem

def Node.written (node : Node) : List (String × Json) :=
  SortedMap.ofList (nodeMembers node.kind node.members)

def namedObjects (json : Json) : List (List (String × Json)) :=
  json.objects.filter fun members => (tag? members).isSome

theorem namedObjects_list (items : List Json) :
    namedObjects (.list items) = items.flatMap namedObjects := by
  rw [namedObjects, Json.objects, Json.objectsInItems_eq_flatMap, List.filter_flatMap]
  rfl

theorem namedObjects_object (members : List (String × Json)) :
    namedObjects (.object members) =
      (if (tag? members).isSome then [members] else []) ++
        members.flatMap fun member => namedObjects member.2 := by
  rw [namedObjects, Json.objects, Json.objectsInMembers_eq_flatMap, List.filter_cons,
    List.filter_flatMap]
  split <;> rfl

/-- The objects that name a kind are those that the nodes of the walk write, one each. -/
theorem namedObjects_toJson {tree : Tree} (well : tree.WellFormed) :
    (namedObjects tree.toJson).Perm (tree.walk.map Node.written) := by
  induction well with
  | list each ih =>
    simp only [Tree.toJson, namedObjects_list, Tree.itemsToJson_eq_map, List.flatMap_map, Tree.walk,
      Tree.walkItems_eq_flatMap_walk, List.map_flatMap]
    exact List.Perm.flatMap_left _ ih
  | map ascending untagged each ih =>
    rw [toJson_map ascending, namedObjects_object, tag?_map untagged]
    simp only [Tree.entriesToJson_eq_map, List.flatMap_map, Tree.walk,
      Tree.walkEntries_eq_flatMap_walk, List.map_flatMap]
    exact List.Perm.flatMap_left _ ih
  | @node kind members shaped each ih =>
    have inside : ((SortedMap.ofList (nodeMembers kind members)).flatMap fun member =>
        namedObjects member.2).Perm
          ((nodeMembers kind members).flatMap fun member => namedObjects member.2) :=
      (SortedMap.ofList_perm (nodup_nodeMembers shaped)).flatMap_right _
    -- The kind is written as a text, which holds no object.
    have kept : ((nodeMembers kind members).flatMap fun member => namedObjects member.2) =
        members.flatMap fun member => namedObjects member.2.toJson := by
      rw [nodeMembers, List.flatMap_cons, Tree.entriesToJson_eq_map, List.flatMap_map]
      rfl
    rw [toJson_node, namedObjects_object, tag?_written shaped, Tree.walk, List.map_cons,
      Tree.walkEntries_eq_flatMap_walk, List.map_flatMap]
    rw [kept] at inside
    exact (inside.trans (List.Perm.flatMap_left _ ih)).cons _
  | _ => exact List.Perm.refl _

namespace Node

def attributeNames (node : Node) : List String :=
  (node.members.map Prod.fst).filter fun name => (shapeOf? node.kind name).isNone

/-- The keys of a node: that of its kind, then its fields and its attributes. -/
def keys (node : Node) : List String :=
  tagKey :: ((fieldsOf node.kind).map Field.name ++ node.attributeNames)

section Keys

variable {node : Node}

theorem keys_eq (well : node.tree.WellFormed) :
    node.keys = tagKey :: node.members.map Prod.fst := by
  obtain ⟨kind, members⟩ := node
  cases well with
  | node shaped each =>
    obtain ⟨fields, attributes, rfl, holds, -, names⟩ := shaped
    have noField : ((fieldsOf kind).map Field.name).filter
        (fun name => (shapeOf? kind name).isNone) = [] := by
      rw [List.filter_eq_nil_iff]
      intro name mem
      obtain ⟨field, memFields, rfl⟩ := List.mem_map.mp mem
      simp [shapeOf?_eq_some_iff.mpr memFields]
    have allAttributes : (attributes.map Prod.fst).filter
        (fun name => (shapeOf? kind name).isNone) = attributes.map Prod.fst := by
      rw [List.filter_eq_self]
      intro name mem
      obtain ⟨member, memAttributes, rfl⟩ := List.mem_map.mp mem
      exact Option.isNone_iff_eq_none.mpr (names member memAttributes).2.2
    simp only [keys, attributeNames, List.map_append, field_keys holds, List.filter_append, noField,
      allAttributes, List.nil_append]

theorem written_keys (well : node.tree.WellFormed) :
    (node.written.map Prod.fst).Perm node.keys := by
  rw [keys_eq well]
  cases well with
  | node shaped each =>
    refine ((SortedMap.ofList_perm (nodup_nodeMembers shaped)).map Prod.fst).trans ?_
    rw [nodeMembers, List.map_cons, Tree.keys_entriesToJson]

end Keys

def encodedMembers (members : List (String × Json)) : List Char :=
  "v1:\x7b".toList ++ ([','].intercalate (members.map Json.memberText) ++ ['\x7d'])

theorem versioned_object (members : List (String × Json)) :
    (versioned (.object members)).toList = encodedMembers members := by
  have version : ("v" ++ toString encodingVersion ++ ":").toList = "v1:".toList := by decide
  have text : (Json.render (.object members)).toList = Json.compact (.object members) :=
    String.toList_ofList
  rw [versioned, String.toList_append, version, text, Json.compact,
    Json.compactMembers_eq_intercalate]
  rfl

/-- How a node is written, as it is and with digests in the place of a member. -/
structure WritesKeys (node : Node) : Prop where
  ascending : ∀ json, node.encode = versioned json →
    ∀ members ∈ json.objects, Json.KeysAscend members ∧ (members.map Prod.fst).Nodup
  ascendingWith : ∀ name digests json, node.encodeWith name digests = versioned json →
    ∀ members ∈ json.objects, Json.KeysAscend members ∧ (members.map Prod.fst).Nodup
  nodes : (namedObjects node.toJson).Perm (node.walk.map written) ∧
    ∀ below ∈ node.walk, below.toJson = .object below.written
  keys : ∀ below ∈ node.walk, Json.KeysAscend below.written ∧
    (below.written.map Prod.fst).Perm below.keys ∧ below.keys.Nodup ∧
    below.written.length = 1 + (fieldsOf below.kind).length + below.attributeNames.length
  /-- Digests in the place of what stands under a key leave all that is written before and after. -/
  replaced : node.encode.toList = encodedMembers node.written ∧
    ∀ name ∈ node.keys, ∃ before value after, node.written = before ++ (name, value) :: after ∧
      ∀ digests, (node.encodeWith name digests).toList =
        encodedMembers (before ++ (name, digestList digests) :: after)

section Written

variable {node : Node}

theorem ascend_of_encoded {text : String} {written : Json} (ordered : written.Ordered)
    (encoded : text = versioned written) {json : Json} (same : text = versioned json) :
    ∀ members ∈ json.objects, Json.KeysAscend members ∧ (members.map Prod.fst).Nodup := by
  rw [encoded] at same
  rw [← versioned_injective same]
  intro members mem
  have ascend := Json.keysAscend_of_ordered ordered members mem
  exact ⟨ascend, Json.nodup_of_keysAscend ascend⟩

theorem ordered_digestList (digests : List String) : (digestList digests).Ordered := by
  rw [digestList, Json.ordered_list_iff, List.forall_mem_map]
  intro digest _
  exact .text digest

theorem replace_of_not_mem {name : String} {members : List (String × Json)}
    (absent : name ∉ members.map Prod.fst) (other : Json) :
    SortedMap.replace name other members = members := by
  have fixed : ∀ member ∈ members,
      (if member.1 = name then (name, other) else member) = id member := by
    intro member mem
    rw [if_neg, id]
    rintro rfl
    exact absent (List.mem_map_of_mem mem)
  rw [SortedMap.replace, List.map_congr_left fixed, List.map_id]

/-- A key stands once, so only one member changes. -/
theorem replace_written {name : String} (named : name ∈ node.written.map Prod.fst) :
    ∃ before value after, node.written = before ++ (name, value) :: after ∧
      ∀ other, SortedMap.replace name other node.written = before ++ (name, other) :: after := by
  have distinct : (node.written.map Prod.fst).Nodup :=
    SortedMap.nodup_of_ascending (SortedMap.ascending_ofList _)
  obtain ⟨⟨key, value⟩, mem, same⟩ := List.mem_map.mp named
  dsimp only at same
  subst same
  obtain ⟨before, after, parts⟩ := List.append_of_mem mem
  refine ⟨before, value, after, parts, fun other => ?_⟩
  rw [parts, List.map_append, List.map_cons, List.nodup_middle, List.nodup_cons,
    List.mem_append, not_or] at distinct
  obtain ⟨⟨earlier, later⟩, -⟩ := distinct
  rw [parts, SortedMap.replace, List.map_append, List.map_cons, if_pos rfl]
  rw [← SortedMap.replace, ← SortedMap.replace, replace_of_not_mem earlier,
    replace_of_not_mem later]

theorem writesKeys_of_lifted (lifted : Lifted node) : WritesKeys node := by
  have well := wellFormed_of_lifted lifted
  have written_object : ∀ below : Node, below.toJson = .object below.written :=
    toJson_eq_object
  constructor
  · intro json same
    exact ascend_of_encoded (ordered_toJson node.tree) rfl same
  · intro name digests json same
    have ordered := Json.ordered_replaceMember name (ordered_toJson node.tree)
      (ordered_digestList digests)
    exact ascend_of_encoded ordered rfl same
  · exact ⟨namedObjects_toJson well, fun below _ => written_object below⟩
  · intro below mem
    have perm := written_keys (wellFormed_walk well below mem)
    have ascend : Json.KeysAscend below.written :=
      Json.keysAscend_of_ascending (SortedMap.ascending_ofList _)
    have count := perm.length_eq
    rw [Node.keys, List.length_map, List.length_cons, List.length_append, List.length_map] at count
    exact ⟨ascend, perm, perm.nodup_iff.mp (Json.nodup_of_keysAscend ascend), by omega⟩
  · refine ⟨?_, fun name named => ?_⟩
    · rw [encode, written_object, versioned_object]
    · rw [← (written_keys well).mem_iff] at named
      obtain ⟨before, value, after, parts, replaced⟩ := replace_written named
      refine ⟨before, value, after, parts, fun digests => ?_⟩
      rw [← replaced, ← versioned_object, encodeWith, written_object]
      rfl

end Written

/-- Whatever a lifted node and its erased copy write has ascending keys in every object, and each
node stands in it under exactly its keys: that of its kind, its fields and its attributes. Digests
in the place of a member change neither the keys nor the text of another member. -/
theorem writes_each_key_once {node : Node} (lifted : Lifted node) :
    WritesKeys node ∧ WritesKeys node.erase :=
  ⟨writesKeys_of_lifted lifted, writesKeys_of_lifted (lifted_erase lifted)⟩

theorem writes_each_key_of_call :
    Lifted pricedCall ∧ pricedCall.keys = ["type", "expression", "arguments", "options"] ∧
      pricedCall.written.map Prod.fst = ["arguments", "expression", "options", "type"] ∧
      WritesKeys pricedCall ∧ WritesKeys pricedCall.erase := by
  have lifted : Lifted pricedCall := lifted_of_lift_toJson rfl
  exact ⟨lifted, by decide, by decide, writes_each_key_once lifted⟩

end Node

end Syntax

end ContractTwins
