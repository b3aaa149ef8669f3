import ContractTwins.Proofs.OrderedJson
import ContractTwins.Syntax.Text

/-!
The trees that lifting gives. Each field of a node holds what its shape allows, the attributes
ascend and take no name that the kind uses, and a map is never mistaken for a node.
-/
namespace ContractTwins.Syntax

open Outcome

def Lifted (node : Node) : Prop :=
  ∃ json : Json, json.Ordered ∧ lift json = .ok node

def Tree.IsNode (tree : Tree) : Prop :=
  ∃ kind members, tree = .node kind members

def Shape.Holds : Shape → Tree → Prop
  | .text, .text _ => True
  | .contractKind, .text name => (ContractKind.ofName? name).isSome
  | .optionalText, .null | .optionalText, .text _ => True
  | .optionalFlag, .null | .optionalFlag, .bool _ => True
  | .node, tree => tree.IsNode
  | .nodes, .list items | .writtenNodes, .list items => ∀ item ∈ items, item.IsNode
  | _, _ => False

def Field.Fits (field : Field) (member : String × Tree) : Prop :=
  member.1 = field.name ∧ field.shape.Holds member.2

def AttributeName (kind name : String) : Prop :=
  name ≠ tagKey ∧ name ∉ locationKeys ∧ shapeOf? kind name = none

/-- The members are the fields of the kind in the order of the schema, and then attributes. -/
def WellShaped (kind : String) (members : List (String × Tree)) : Prop :=
  ∃ fields attributes, members = fields ++ attributes ∧
    List.Forall₂ Field.Fits (fieldsOf kind) fields ∧
    SortedMap.Ascending attributes ∧ ∀ member ∈ attributes, AttributeName kind member.1

inductive Tree.WellFormed : Tree → Prop where
  | null : WellFormed .null
  | bool (value : Bool) : WellFormed (.bool value)
  | number (value : Number) : WellFormed (.number value)
  | text (value : String) : WellFormed (.text value)
  | list {items : List Tree} (each : ∀ item ∈ items, WellFormed item) : WellFormed (.list items)
  | map {entries : List (String × Tree)} (ascending : SortedMap.Ascending entries)
      (untagged : ∀ name, (tagKey, Tree.text name) ∉ entries)
      (each : ∀ entry ∈ entries, WellFormed entry.2) : WellFormed (.map entries)
  | node {kind : String} {members : List (String × Tree)} (shaped : WellShaped kind members)
      (each : ∀ member ∈ members, WellFormed member.2) : WellFormed (.node kind members)

section Schema

theorem fieldsOf_cases (kind : String) :
    fieldsOf kind = [] ∨ ∃ entry ∈ schema, entry.1 = kind ∧ fieldsOf kind = entry.2 := by
  rw [fieldsOf]
  cases found : schema.lookup kind with
  | none => exact Or.inl rfl
  | some fields =>
    have mem := (SortedMap.lookup_eq_some_iff_mem (by decide)).mp found
    exact Or.inr ⟨(kind, fields), mem, rfl, rfl⟩

theorem fieldNames_distinct (kind : String) :
    ((tagKey :: locationKeys) ++ (fieldsOf kind).map Field.name).Nodup := by
  have all : ∀ entry ∈ schema,
      ((tagKey :: locationKeys) ++ entry.2.map Field.name).Nodup := by decide
  rcases fieldsOf_cases kind with none | ⟨entry, mem, rfl, eq⟩
  · rw [none]
    decide
  · rw [eq]
    exact all entry mem

theorem shapeOf?_eq_some_iff {kind name : String} {shape : Shape} :
    shapeOf? kind name = some shape ↔ ⟨name, shape⟩ ∈ fieldsOf kind := by
  have distinct : ((fieldsOf kind).map Field.name).Nodup :=
    (List.nodup_append.mp (fieldNames_distinct kind)).2.1
  rw [shapeOf?]
  revert distinct
  induction fieldsOf kind with
  | nil => simp
  | cons field rest ih =>
    intro distinct
    obtain ⟨other, held⟩ := field
    rw [List.map_cons, List.nodup_cons] at distinct
    rw [List.find?_cons, List.mem_cons, Field.mk.injEq]
    by_cases same : other = name
    · subst same
      have absent : (⟨other, shape⟩ : Field) ∉ rest := fun mem =>
        distinct.1 (List.mem_map.mpr ⟨_, mem, rfl⟩)
      simp [absent, eq_comm]
    · simpa [beq_eq_false_iff_ne.mpr same, Ne.symm same] using ih distinct.2

end Schema

def liftMember (kind name : String) (value : Json) : Except LiftError Tree :=
  match shapeOf? kind name with
  | some shape => liftField kind name shape value
  | none => liftValue value

def isKept (name : String) : Bool := !decide (name = tagKey ∨ name ∈ locationKeys)

theorem liftItems_eq_mapM (items : List Json) : liftItems items = items.mapM liftValue := by
  induction items with
  | nil => rfl
  | cons item rest ih => rw [liftItems, List.mapM_cons, ih]

theorem liftNodes_eq_mapM (items : List Json) : liftNodes items = items.mapM liftNode := by
  induction items with
  | nil => rfl
  | cons item rest ih => rw [liftNodes, List.mapM_cons, ih]

theorem liftEntries_eq_mapM (members : List (String × Json)) :
    liftEntries members = members.mapM fun member =>
      (do let tree ← liftValue member.2; pure (member.1, tree)) := by
  induction members with
  | nil => rfl
  | cons member rest ih => rw [liftEntries, List.mapM_cons, ih, bind_assoc]; rfl

theorem liftEntries_eq_ok_iff {members : List (String × Json)} {entries : List (String × Tree)} :
    liftEntries members = .ok entries ↔
      List.Forall₂ (fun member entry => entry.1 = member.1 ∧ liftValue member.2 = .ok entry.2)
        members entries := by
  simp only [liftEntries_eq_mapM, mapM_eq_ok_iff, keyed_eq_ok_iff]

theorem liftMembers_eq_map (kind : String) (members : List (String × Json)) :
    liftMembers kind members =
      (members.filter fun member => isKept member.1).map fun member =>
        (member.1, liftMember kind member.1 member.2) := by
  induction members with
  | nil => rfl
  | cons member rest ih =>
    obtain ⟨name, value⟩ := member
    rw [liftMembers, ih, List.filter_cons, isKept]
    split
    · rename_i dropped
      simp [dropped]
    · rename_i kept
      simp only [kept, decide_false, Bool.not_false, if_true, List.map_cons, liftMember]
      split <;> simp_all

def fieldResult (kind : String) (lifted : List (String × Except LiftError Tree)) (field : Field) :
    Except LiftError Tree :=
  (lifted.lookup field.name).getD (absentField kind field.name field.shape)

theorem assemble_eq_ok_iff {kind : String} {lifted : List (String × Except LiftError Tree)}
    {tree : Tree} :
    assemble kind lifted = .ok tree ↔
      ∃ fields attributes, tree = .node kind (fields ++ attributes) ∧
        List.Forall₂
          (fun field member =>
            member.1 = field.name ∧ fieldResult kind lifted field = .ok member.2)
          (fieldsOf kind) fields ∧
        List.Forall₂ (fun result member => member.1 = result.1 ∧ result.2 = .ok member.2)
          (lifted.filter fun member => (shapeOf? kind member.1).isNone) attributes := by
  simp only [assemble, bind_eq_ok_iff, pure_eq_ok_iff]
  simp only [mapM_eq_ok_iff, keyed_eq_ok_iff]
  constructor
  · rintro ⟨fields, holds, attributes, others, rfl⟩
    exact ⟨fields, attributes, rfl, holds, others⟩
  · rintro ⟨fields, attributes, rfl, holds, others⟩
    exact ⟨fields, holds, attributes, others, rfl⟩

/-- Whichever way a value is lifted, the tree is well formed and fits its role. -/
structure LiftsWell (json : Json) : Prop where
  value : ∀ {tree}, liftValue json = .ok tree → tree.WellFormed
  node : ∀ {tree}, liftNode json = .ok tree → tree.WellFormed ∧ tree.IsNode
  field : ∀ {kind name shape tree}, liftField kind name shape json = .ok tree →
    tree.WellFormed ∧ shape.Holds tree

theorem scalarField_holds {kind name : String} {shape : Shape} {json : Json} {tree : Tree}
    (lifted : scalarField kind name shape json = .ok tree) : tree.WellFormed ∧ shape.Holds tree := by
  revert lifted
  fun_cases scalarField kind name shape json <;> intro lifted <;> cases lifted
  · exact ⟨.null, trivial⟩
  · exact ⟨.text _, trivial⟩
  · exact ⟨.null, trivial⟩
  · exact ⟨.bool _, trivial⟩
  · exact ⟨.text _, trivial⟩
  · exact ⟨.text _, by assumption⟩

theorem absentField_holds {kind name : String} {shape : Shape} {tree : Tree}
    (lifted : absentField kind name shape = .ok tree) : tree.WellFormed ∧ shape.Holds tree := by
  cases shape <;> cases lifted
  · exact ⟨.null, trivial⟩
  · exact ⟨.null, trivial⟩
  · exact ⟨.list (by simp), by simp [Shape.Holds]⟩

theorem liftNodes_holds {items : List Json} {trees : List Tree}
    (each : ∀ item ∈ items, LiftsWell item) (lifted : liftNodes items = .ok trees) :
    ∀ tree ∈ trees, tree.WellFormed ∧ tree.IsNode := by
  rw [liftNodes_eq_mapM, mapM_eq_ok_iff] at lifted
  intro tree mem
  obtain ⟨item, memItem, eq⟩ := exists_of_mem_right lifted mem
  exact (each item memItem).node eq

theorem liftMember_holds {kind name : String} {json : Json} {tree : Tree} (well : LiftsWell json)
    (lifted : liftMember kind name json = .ok tree) :
    tree.WellFormed ∧ ∀ shape, shapeOf? kind name = some shape → shape.Holds tree := by
  rw [liftMember] at lifted
  split at lifted
  · rename_i shape named
    obtain ⟨wellFormed, holds⟩ := well.field lifted
    exact ⟨wellFormed, fun other same => Option.some.inj (named.symm.trans same) ▸ holds⟩
  · rename_i unnamed
    exact ⟨well.value lifted, fun shape named => by rw [unnamed] at named; cases named⟩

theorem ascending_liftMembers {kind : String} {members : List (String × Json)}
    (ascending : SortedMap.Ascending members) :
    SortedMap.Ascending (liftMembers kind members) := by
  rw [liftMembers_eq_map, SortedMap.Ascending, List.pairwise_map]
  exact ascending.filter _

theorem mem_liftMembers {kind name : String} {members : List (String × Json)}
    {result : Except LiftError Tree} (mem : (name, result) ∈ liftMembers kind members) :
    isKept name ∧ ∃ value, (name, value) ∈ members ∧ result = liftMember kind name value := by
  rw [liftMembers_eq_map] at mem
  obtain ⟨⟨other, value⟩, memKept, eq⟩ := List.mem_map.mp mem
  obtain ⟨memMembers, kept⟩ := List.mem_filter.mp memKept
  cases eq
  exact ⟨kept, value, memMembers, rfl⟩

section Assembled

variable {kind : String} {members : List (String × Json)} {tree : Tree}

theorem liftMembers_holds {name : String} (each : ∀ member ∈ members, LiftsWell member.2)
    (mem : (name, .ok tree) ∈ liftMembers kind members) :
    isKept name ∧ tree.WellFormed ∧
      ∀ shape, shapeOf? kind name = some shape → shape.Holds tree := by
  obtain ⟨kept, value, memMembers, eq⟩ := mem_liftMembers mem
  exact ⟨kept, liftMember_holds (each _ memMembers) eq.symm⟩

theorem fieldResult_holds {field : Field} (each : ∀ member ∈ members, LiftsWell member.2)
    (mem : field ∈ fieldsOf kind)
    (lifted : fieldResult kind (liftMembers kind members) field = .ok tree) :
    tree.WellFormed ∧ field.shape.Holds tree := by
  rw [fieldResult] at lifted
  cases found : (liftMembers kind members).lookup field.name with
  | none =>
    rw [found] at lifted
    exact absentField_holds lifted
  | some result =>
    rw [found] at lifted
    have written := SortedMap.mem_of_lookup_eq_some found
    rw [show result = .ok tree from lifted] at written
    obtain ⟨-, well, holds⟩ := liftMembers_holds each written
    exact ⟨well, holds _ (shapeOf?_eq_some_iff.mpr mem)⟩

theorem attribute_holds {name : String} (each : ∀ member ∈ members, LiftsWell member.2)
    (mem : (name, .ok tree) ∈ liftMembers kind members) (unnamed : shapeOf? kind name = none) :
    AttributeName kind name ∧ tree.WellFormed := by
  obtain ⟨kept, well, -⟩ := liftMembers_holds each mem
  simp only [isKept, Bool.not_eq_true', decide_eq_false_iff_not, not_or] at kept
  exact ⟨⟨kept.1, kept.2, unnamed⟩, well⟩

theorem assemble_holds (ascending : SortedMap.Ascending members)
    (each : ∀ member ∈ members, LiftsWell member.2)
    (lifted : assemble kind (liftMembers kind members) = .ok tree) :
    tree.WellFormed ∧ tree.IsNode := by
  obtain ⟨fields, attributes, rfl, holds, others⟩ := assemble_eq_ok_iff.mp lifted
  have kept : ∀ member ∈ attributes, AttributeName kind member.1 ∧ member.2.WellFormed := by
    intro member mem
    obtain ⟨⟨name, result⟩, memResult, rfl, rfl⟩ := exists_of_mem_right others mem
    obtain ⟨memLifted, unnamed⟩ := List.mem_filter.mp memResult
    exact attribute_holds each memLifted (Option.isNone_iff_eq_none.mp unnamed)
  refine ⟨.node ⟨fields, attributes, rfl, ?_, ?_, fun member mem => (kept member mem).1⟩ ?_, _, _, rfl⟩
  · refine (forall₂_mem holds).imp ?_
    rintro field member ⟨memField, -, name, eq⟩
    exact ⟨name, (fieldResult_holds each memField eq).2⟩
  · exact SortedMap.ascending_of_same_keys (others.imp fun _ _ pair => pair.1)
      ((ascending_liftMembers ascending).filter _)
  · intro member mem
    rcases List.mem_append.mp mem with mem | mem
    · obtain ⟨_, memField, _, eq⟩ := exists_of_mem_right holds mem
      exact (fieldResult_holds each memField eq).1
    · exact (kept member mem).2

end Assembled

theorem liftsWell_scalar {json : Json} {tree : Tree} (value : liftValue json = .ok tree)
    (well : tree.WellFormed) (node : liftNode json = .error .notANode)
    (field : ∀ kind name shape, liftField kind name shape json = scalarField kind name shape json) :
    LiftsWell json where
  value lifted := by
    rw [value] at lifted
    exact Except.ok.inj lifted ▸ well
  node lifted := by
    rw [node] at lifted
    cases lifted
  field lifted := by
    rw [field] at lifted
    exact scalarField_holds lifted

theorem liftsWell_null : LiftsWell .null where
  value lifted := by cases lifted; exact .null
  node lifted := by cases lifted
  field {kind name shape tree} lifted := by
    rw [liftField] at lifted
    split at lifted
    · rename_i list
      cases lifted
      rcases list with rfl | rfl <;> exact ⟨.list (by simp), by simp [Shape.Holds]⟩
    split at lifted
    · cases lifted
    · exact scalarField_holds lifted

theorem liftsWell_list {items : List Json} (each : ∀ item ∈ items, LiftsWell item) :
    LiftsWell (.list items) where
  value lifted := by
    rw [liftValue, map_eq_ok_iff] at lifted
    obtain ⟨trees, eq, rfl⟩ := lifted
    rw [liftItems_eq_mapM, mapM_eq_ok_iff] at eq
    refine .list fun tree mem => ?_
    obtain ⟨item, memItem, eqTree⟩ := exists_of_mem_right eq mem
    exact (each item memItem).value eqTree
  node lifted := by cases lifted
  field {kind name shape tree} lifted := by
    rw [liftField] at lifted
    split at lifted
    · rename_i list
      obtain ⟨trees, eq, rfl⟩ := map_eq_ok_iff.mp lifted
      have holds := liftNodes_holds each eq
      have nodes : ∀ tree ∈ trees, tree.IsNode := fun tree mem => (holds tree mem).2
      exact ⟨.list fun tree mem => (holds tree mem).1, by rcases list with rfl | rfl <;> exact nodes⟩
    · cases lifted

theorem tag?_eq_some_iff {members : List (String × Json)} {kind : String}
    (distinct : (members.map Prod.fst).Nodup) :
    tag? members = some kind ↔ (tagKey, .text kind) ∈ members := by
  rw [← SortedMap.lookup_eq_some_iff_mem distinct, tag?]
  split <;> simp_all

theorem eq_text_of_liftValue {json : Json} {text : String}
    (lifted : liftValue json = .ok (.text text)) : json = .text text := by
  cases json with
  | null => cases lifted
  | bool value => cases lifted
  | number value => cases lifted
  | text value => cases lifted; rfl
  | list items =>
    obtain ⟨_, _, eq⟩ := map_eq_ok_iff.mp lifted
    cases eq
  | object members =>
    rw [liftValue] at lifted
    split at lifted
    · obtain ⟨_, _, eq, _⟩ := assemble_eq_ok_iff.mp lifted
      cases eq
    · obtain ⟨_, _, eq⟩ := map_eq_ok_iff.mp lifted
      cases eq

theorem liftsWell_object {members : List (String × Json)} (ascending : SortedMap.Ascending members)
    (each : ∀ member ∈ members, LiftsWell member.2) : LiftsWell (.object members) where
  value lifted := by
    rw [liftValue] at lifted
    split at lifted
    · exact (assemble_holds ascending each lifted).1
    · rename_i untagged
      obtain ⟨entries, eq, rfl⟩ := map_eq_ok_iff.mp lifted
      rw [liftEntries_eq_ok_iff] at eq
      refine .map (SortedMap.ascending_of_same_keys (eq.imp fun _ _ pair => pair.1) ascending) ?_ ?_
      · intro name mem
        obtain ⟨⟨key, value⟩, memMembers, same, eqText⟩ := exists_of_mem_right eq mem
        cases (show tagKey = key from same)
        cases eq_text_of_liftValue eqText
        have tagged := (tag?_eq_some_iff (SortedMap.nodup_of_ascending ascending)).mpr memMembers
        rw [untagged] at tagged
        cases tagged
      · intro entry mem
        obtain ⟨member, memMembers, _, eqTree⟩ := exists_of_mem_right eq mem
        exact (each member memMembers).value eqTree
  node lifted := by
    rw [liftNode] at lifted
    split at lifted
    · exact assemble_holds ascending each lifted
    · cases lifted
  field {kind name shape tree} lifted := by
    rw [liftField] at lifted
    split at lifted
    · rename_i node
      subst node
      split at lifted
      · exact assemble_holds ascending each lifted
      · cases lifted
    · cases lifted

theorem liftsWell_of_ordered {json : Json} (ordered : json.Ordered) : LiftsWell json := by
  induction ordered with
  | null => exact liftsWell_null
  | bool value => exact liftsWell_scalar rfl (.bool value) rfl fun _ _ _ => rfl
  | number value => exact liftsWell_scalar rfl (.number value) rfl fun _ _ _ => rfl
  | text value => exact liftsWell_scalar rfl (.text value) rfl fun _ _ _ => rfl
  | list each ih => exact liftsWell_list ih
  | object ascending each ih => exact liftsWell_object ascending ih

theorem wellFormed_of_lifted {node : Node} (lifted : Lifted node) : node.tree.WellFormed := by
  obtain ⟨json, ordered, eq⟩ := lifted
  rw [lift, bind_eq_ok_iff] at eq
  obtain ⟨tree, eqTree, eq⟩ := eq
  split at eq
  · cases eq
    exact ((liftsWell_of_ordered ordered).node eqTree).1
  · cases eq

theorem lifted_ofText {text : String} {node : Node} (spelled : Node.ofText text = .ok node) :
    Lifted node := by
  rw [Node.ofText] at spelled
  split at spelled
  · cases spelled
  · rename_i json rest _ read
    split at spelled
    · cases spelled
    · rename_i other lifted
      have same : other = node := by
        cases ended : Json.ending rest <;> rw [ended] at spelled <;> cases spelled
        rfl
      exact ⟨json, Json.yields_value _ _ _ read, same ▸ lifted⟩

end ContractTwins.Syntax
