import ContractTwins.Json.Basic
import ContractTwins.Syntax.Schema

/-!
Syntax trees. A node has a kind and members: first the fields of its kind, in the order of the
schema, then its attributes with ascending keys. What is not a node is kept as it was parsed.
-/
namespace ContractTwins.Syntax

inductive Tree where
  | null
  | bool (value : Bool)
  | number (value : Number)
  | text (value : String)
  | list (items : List Tree)
  | map (entries : List (String × Tree))
  | node (kind : String) (members : List (String × Tree))

structure Node where
  kind : String
  members : List (String × Tree)

namespace Tree

@[induction_eliminator]
theorem induction {motive : Tree → Prop} (null : motive .null)
    (bool : ∀ value, motive (.bool value)) (number : ∀ value, motive (.number value))
    (text : ∀ value, motive (.text value))
    (list : ∀ items, (∀ item ∈ items, motive item) → motive (.list items))
    (map : ∀ entries, (∀ entry ∈ entries, motive entry.2) → motive (.map entries))
    (node : ∀ kind members, (∀ member ∈ members, motive member.2) → motive (.node kind members)) :
    (tree : Tree) → motive tree
  | .null => null
  | .bool value => bool value
  | .number value => number value
  | .text value => text value
  | .list items => list items fun item _ =>
      induction null bool number text list map node item
  | .map entries => map entries fun (_, value) _ =>
      induction null bool number text list map node value
  | .node kind members => node kind members fun (_, value) _ =>
      induction null bool number text list map node value
decreasing_by
  · rename_i mem
    have below := List.sizeOf_lt_of_mem mem
    simp only [Tree.list.sizeOf_spec]
    omega
  · rename_i mem
    have below := List.sizeOf_lt_of_mem mem
    simp only [Tree.map.sizeOf_spec, Prod.mk.sizeOf_spec] at below ⊢
    omega
  · rename_i mem
    have below := List.sizeOf_lt_of_mem mem
    simp only [Tree.node.sizeOf_spec, Prod.mk.sizeOf_spec] at below ⊢
    omega

mutual

def toJson : Tree → Json
  | .null => .null
  | .bool value => .bool value
  | .number value => .number value
  | .text value => .text value
  | .list items => .list (itemsToJson items)
  | .map entries => .ofMembers (entriesToJson entries)
  | .node kind members => .ofMembers ((tagKey, .text kind) :: entriesToJson members)

def itemsToJson : List Tree → List Json
  | [] => []
  | item :: rest => toJson item :: itemsToJson rest

def entriesToJson : List (String × Tree) → List (String × Json)
  | [] => []
  | (key, value) :: rest => (key, toJson value) :: entriesToJson rest

end

mutual

def same : Tree → Tree → Bool
  | .null, .null => true
  | .bool a, .bool b => a == b
  | .number a, .number b => a.same b
  | .text a, .text b => a == b
  | .list a, .list b => sameItems a b
  | .map a, .map b => sameEntries a b
  | .node kind a, .node other b => kind == other && sameEntries a b
  | _, _ => false

def sameItems : List Tree → List Tree → Bool
  | [], [] => true
  | a :: as, b :: bs => same a b && sameItems as bs
  | _, _ => false

def sameEntries : List (String × Tree) → List (String × Tree) → Bool
  | [], [] => true
  | (key, a) :: as, (other, b) :: bs => key == other && same a b && sameEntries as bs
  | _, _ => false

end

mutual

def outermost : Tree → List Node
  | .node kind members => [⟨kind, members⟩]
  | .list items => outermostItems items
  | .map entries => outermostEntries entries
  | .null | .bool _ | .number _ | .text _ => []

def outermostItems : List Tree → List Node
  | [] => []
  | item :: rest => outermost item ++ outermostItems rest

def outermostEntries : List (String × Tree) → List Node
  | [] => []
  | (_, value) :: rest => outermost value ++ outermostEntries rest

end

mutual

def walk : Tree → List Node
  | .node kind members => ⟨kind, members⟩ :: walkEntries members
  | .list items => walkItems items
  | .map entries => walkEntries entries
  | .null | .bool _ | .number _ | .text _ => []

def walkItems : List Tree → List Node
  | [] => []
  | item :: rest => walk item ++ walkItems rest

def walkEntries : List (String × Tree) → List Node
  | [] => []
  | (_, value) :: rest => walk value ++ walkEntries rest

end

end Tree

namespace Node

def tree (node : Node) : Tree := .node node.kind node.members

theorem eq_of_tree_eq {a b : Node} (same : a.tree = b.tree) : a = b := by
  obtain ⟨kind, members⟩ := Tree.node.inj same
  exact (Node.mk.injEq ..).mpr ⟨kind, members⟩

def toJson (node : Node) : Json := node.tree.toJson

def same (a b : Node) : Bool := a.tree.same b.tree

def member? (node : Node) (name : String) : Option Tree := node.members.lookup name

/-- The nodes that stand in no other node below this one: those of its fields before those of its
attributes. -/
def children (node : Node) : List Node := Tree.outermostEntries node.members

def walk (node : Node) : List Node := node.tree.walk

def textAt (node : Node) (name : String) : String :=
  match node.member? name with
  | some (.text value) => value
  | _ => ""

def nodeAt? (node : Node) (name : String) : Option Node :=
  match node.member? name with
  | some (.node kind members) => some ⟨kind, members⟩
  | _ => none

def nodesAt (node : Node) (name : String) : List Node :=
  match node.member? name with
  | some tree => tree.outermost
  | none => []

def withMember (node : Node) (name : String) (value : Tree) : Node :=
  ⟨node.kind, node.members.map fun member => if member.1 = name then (name, value) else member⟩

end Node

namespace Tree

mutual

theorem walk_eq_flatMap : (tree : Tree) → tree.walk = tree.outermost.flatMap Node.walk
  | .node kind members => by simp [walk, outermost, Node.walk, Node.tree]
  | .list items => by simp [walk, outermost, walkItems_eq_flatMap items]
  | .map entries => by simp [walk, outermost, walkEntries_eq_flatMap entries]
  | .null | .bool _ | .number _ | .text _ => by simp [walk, outermost]

theorem walkItems_eq_flatMap :
    (items : List Tree) → walkItems items = (outermostItems items).flatMap Node.walk
  | [] => by simp [walkItems, outermostItems]
  | item :: rest => by
    simp [walkItems, outermostItems, walk_eq_flatMap item, walkItems_eq_flatMap rest]

theorem walkEntries_eq_flatMap :
    (entries : List (String × Tree)) →
      walkEntries entries = (outermostEntries entries).flatMap Node.walk
  | [] => by simp [walkEntries, outermostEntries]
  | (_, value) :: rest => by
    simp [walkEntries, outermostEntries, walk_eq_flatMap value, walkEntries_eq_flatMap rest]

end

end Tree

theorem Node.walk_eq_cons (node : Node) : node.walk = node :: node.children.flatMap Node.walk := by
  obtain ⟨kind, members⟩ := node
  rw [Node.walk, Node.tree, Tree.walk, Tree.walkEntries_eq_flatMap]
  rfl

end ContractTwins.Syntax
