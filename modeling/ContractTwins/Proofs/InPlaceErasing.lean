import ContractTwins.Proofs.Renaming

/-!
Erasing as a walk that changes each node it meets before it goes on to the nodes below. At the call
of an assertion it changes the arguments too, while the callee still has its name. The walk is over
lists, maps and nodes alike; `depth` bounds it, since no visit makes a tree deeper.
-/
namespace ContractTwins.Syntax

namespace Tree

mutual

def depth : Tree → Nat
  | .node _ members => depthEntries members + 1
  | .list items => depthItems items + 1
  | .map entries => depthEntries entries + 1
  | .null | .bool _ | .number _ | .text _ => 0

def depthItems : List Tree → Nat
  | [] => 0
  | item :: rest => max item.depth (depthItems rest)

def depthEntries : List (String × Tree) → Nat
  | [] => 0
  | (_, value) :: rest => max value.depth (depthEntries rest)

end

theorem depth_le_of_mem {items : List Tree} {item : Tree} (mem : item ∈ items) :
    item.depth ≤ depthItems items := by
  induction items with
  | nil => cases mem
  | cons first rest ih =>
    simp only [depthItems]
    rcases List.mem_cons.mp mem with rfl | later
    · omega
    · have := ih later
      omega

theorem depth_le_of_mem_entries {entries : List (String × Tree)} {entry : String × Tree}
    (mem : entry ∈ entries) : entry.2.depth ≤ depthEntries entries := by
  induction entries with
  | nil => cases mem
  | cons first rest ih =>
    simp only [depthEntries]
    rcases List.mem_cons.mp mem with rfl | later
    · omega
    · have := ih later
      omega

theorem depthItems_map_le {f : Tree → Tree} (shallow : ∀ item, (f item).depth ≤ item.depth)
    (items : List Tree) : depthItems (items.map f) ≤ depthItems items := by
  induction items with
  | nil => simp
  | cons item rest ih =>
    have := shallow item
    simp only [List.map_cons, depthItems]
    omega

theorem depthEntries_map_le {f : String → Tree → Tree}
    (shallow : ∀ name value, (f name value).depth ≤ value.depth) (entries : List (String × Tree)) :
    depthEntries (entries.map fun entry => (entry.1, f entry.1 entry.2)) ≤
      depthEntries entries := by
  induction entries with
  | nil => simp
  | cons entry rest ih =>
    have := shallow entry.1 entry.2
    simp only [List.map_cons, depthEntries]
    omega

end Tree

/-- What is done to each node that a walk meets. No tree gets deeper by it, so that the walk ends. -/
structure Visitor where
  visit : Node → Node
  shallow : ∀ node, (visit node).tree.depth ≤ node.tree.depth

namespace Tree

/-- The walk goes on in what the visit of a node has left of it. -/
def walkWith (visitor : Visitor) : Tree → Tree
  | .node kind members =>
    .node (visitor.visit ⟨kind, members⟩).kind
      ((visitor.visit ⟨kind, members⟩).members.attach.map fun member =>
        (member.1.1, walkWith visitor member.1.2))
  | .list items => .list (items.map fun item => walkWith visitor item)
  | .map entries => .map (entries.map fun entry => (entry.1, walkWith visitor entry.2))
  | .null => .null
  | .bool value => .bool value
  | .number value => .number value
  | .text value => .text value
termination_by tree => tree.depth
decreasing_by
  · have below := depth_le_of_mem_entries member.2
    have shallow := visitor.shallow ⟨kind, members⟩
    simp only [Node.tree, depth] at shallow ⊢
    omega
  · rename_i mem
    have below := depth_le_of_mem mem
    simp only [depth]
    omega
  · rename_i mem
    have below := depth_le_of_mem_entries mem
    simp only [depth]
    omega

theorem walkWith_node (visitor : Visitor) (node : Node) :
    node.tree.walkWith visitor =
      .node (visitor.visit node).kind
        ((visitor.visit node).members.map fun member =>
          (member.1, member.2.walkWith visitor)) := by
  have all := List.attach_map_val (l := (visitor.visit node).members)
    (f := fun member => (member.1, member.2.walkWith visitor))
  rw [Node.tree, walkWith, ← all]

end Tree

def blankedMessage : Tree → Tree
  | .node kind members =>
    if kind = "StringLiteral" then
      .node kind (members.map fun member =>
        (member.1, (erased? .argument kind member.1 member.2).getD member.2))
    else .node kind members
  | tree => tree

def marked : Place → Tree → Tree
  | .arguments, .list items => .list (items.map blankedMessage)
  | .argument, tree => blankedMessage tree
  | _, tree => tree

def visitedMember (kind : String) (asserts : Bool) (name : String) (value : Tree) : Tree :=
  (erased? .elsewhere kind name value).getD (marked (Place.member asserts name) value)

section Depth

variable {place : Place} {kind name : String} {value : Tree}

theorem depth_erased?_le {blank : Tree} (erased : erased? place kind name value = some blank) :
    blank.depth ≤ value.depth := by
  rcases erased?_eq_some erased with ⟨-, rfl⟩ | ⟨-, -, rfl⟩ |
    ⟨rfl, rfl, ⟨-, rfl⟩ | ⟨rfl, rfl⟩⟩
  · exact Nat.zero_le _
  · exact Nat.zero_le _
  · exact Nat.zero_le _
  · cases value with
    | list items => simp [Tree.depth, Tree.depthItems]
    | _ => simp [erased?, nameFields] at erased

theorem depth_getD_erased?_le {other : Tree} (shallow : other.depth ≤ value.depth) :
    ((erased? place kind name value).getD other).depth ≤ value.depth := by
  cases erased : erased? place kind name value with
  | none => exact shallow
  | some blank => exact depth_erased?_le erased

theorem depth_blankedMessage_le (tree : Tree) : (blankedMessage tree).depth ≤ tree.depth := by
  cases tree with
  | node kind members =>
    rw [blankedMessage]
    split
    · have shallow := Tree.depthEntries_map_le
        (f := fun name value => (erased? .argument kind name value).getD value)
        (fun name value => depth_getD_erased?_le (Nat.le_refl _)) members
      simp only [Tree.depth]
      omega
    · exact Nat.le_refl _
  | _ => exact Nat.le_refl _

theorem depth_marked_le (place : Place) (tree : Tree) : (marked place tree).depth ≤ tree.depth := by
  cases place with
  | argument => exact depth_blankedMessage_le tree
  | elsewhere => exact Nat.le_refl _
  | arguments =>
    cases tree with
    | list items =>
      have shallow := Tree.depthItems_map_le depth_blankedMessage_le items
      simp only [marked, Tree.depth]
      omega
    | _ => exact Nat.le_refl _

end Depth

/-- A visit erases what the node itself holds, and the messages among its arguments. -/
def eraser : Visitor where
  visit node :=
    ⟨node.kind, node.members.map fun member =>
      (member.1, visitedMember node.kind (isAssertion node.kind node.members) member.1 member.2)⟩
  shallow node := by
    have shallow := Tree.depthEntries_map_le
      (f := visitedMember node.kind (isAssertion node.kind node.members))
      (fun name value => depth_getD_erased?_le (depth_marked_le _ value)) node.members
    simp only [Node.tree, Tree.depth]
    omega

section Members

variable {place : Place} {kind name : String} {value : Tree}

theorem walkWith_blank {blank : Tree} (erased : erased? place kind name value = some blank) :
    blank.walkWith eraser = blank := by
  rcases erased?_eq_some erased with ⟨-, rfl⟩ | ⟨-, -, rfl⟩ | ⟨-, -, ⟨-, rfl⟩ | ⟨-, rfl⟩⟩ <;>
    simp [Tree.walkWith]

/-- Only a message is erased before the node itself is visited. -/
theorem erased?_unless_message (other : ¬(place = .argument ∧ kind = "StringLiteral")) :
    erased? place kind name value = erased? .elsewhere kind name value := by
  have elsewhere : ¬(Place.elsewhere = .argument ∧ kind = "StringLiteral") := by simp
  unfold erased?
  simp only [other, elsewhere, if_false]

theorem walkWith_visitedMember (asserts : Bool)
    (other : ¬(place = .argument ∧ kind = "StringLiteral"))
    (below : ∀ place, (marked place value).walkWith eraser = value.erase place) :
    (visitedMember kind asserts name value).walkWith eraser =
      eraseMember place kind asserts name value := by
  rw [visitedMember, eraseMember, erased?_unless_message other]
  cases erased : erased? .elsewhere kind name value with
  | none => exact below _
  | some blank => exact walkWith_blank erased

/-- The call has erased the message already, and its visit does nothing more. -/
theorem walkWith_message (below : value.walkWith eraser = value.erase .elsewhere) :
    (visitedMember "StringLiteral" false name
        ((erased? .argument "StringLiteral" name value).getD value)).walkWith eraser =
      eraseMember .argument "StringLiteral" false name value := by
  rw [visitedMember, erased?_elsewhere not_bearsName_message, eraseMember]
  cases erased : erased? .argument "StringLiteral" name value with
  | none => exact below
  | some blank => exact walkWith_blank erased

end Members

section Trees

variable {kind : String} {members : List (String × Tree)}

theorem walkWith_eraser (kind : String) (members : List (String × Tree)) :
    (Tree.node kind members).walkWith eraser =
      .node kind (members.map fun member =>
        (member.1,
          (visitedMember kind (isAssertion kind members) member.1 member.2).walkWith eraser)) := by
  refine (Tree.walkWith_node eraser ⟨kind, members⟩).trans ?_
  rw [eraser, List.map_map]
  rfl

theorem walkWith_marked_node
    (below : ∀ member ∈ members, ∀ place,
      (marked place member.2).walkWith eraser = member.2.erase place) (place : Place) :
    (marked place (.node kind members)).walkWith eraser =
      (Tree.node kind members).erase place := by
  rw [Tree.erase, Tree.eraseMembers_eq_map]
  -- A message holds blanks already when it is visited; all other nodes are as they were.
  by_cases message : place = .argument ∧ kind = "StringLiteral"
  · obtain ⟨rfl, rfl⟩ := message
    have call : ∀ members, isAssertion "StringLiteral" members = false :=
      fun members => not_assertion (by decide)
    rw [marked, blankedMessage, if_pos rfl, walkWith_eraser, call, call, List.map_map]
    apply congrArg (Tree.node _)
    apply List.map_congr_left
    intro member mem
    exact congrArg (Prod.mk member.1) (walkWith_message (below member mem .elsewhere))
  · have unmarked : marked place (.node kind members) = .node kind members := by
      cases place with
      | argument => simp [marked, blankedMessage, show kind ≠ "StringLiteral" by simpa using message]
      | _ => rfl
    rw [unmarked, walkWith_eraser]
    apply congrArg (Tree.node kind)
    apply List.map_congr_left
    intro member mem
    rw [walkWith_visitedMember _ message (below member mem)]

theorem walkWith_marked_list {items : List Tree}
    (below : ∀ item ∈ items, ∀ place, (marked place item).walkWith eraser = item.erase place)
    (place : Place) :
    (marked place (.list items)).walkWith eraser = (Tree.list items).erase place := by
  have unmarked : marked .elsewhere = id := rfl
  have each : marked place (.list items) = .list (items.map (marked place.item)) := by
    cases place <;> simp [marked, Place.item, blankedMessage, unmarked]
  rw [each, Tree.walkWith, Tree.erase, Tree.eraseItems_eq_map, List.map_map]
  apply congrArg Tree.list
  apply List.map_congr_left
  intro item mem
  exact below item mem place.item

theorem walkWith_marked_map {entries : List (String × Tree)}
    (below : ∀ entry ∈ entries, ∀ place,
      (marked place entry.2).walkWith eraser = entry.2.erase place) (place : Place) :
    (marked place (.map entries)).walkWith eraser = (Tree.map entries).erase place := by
  have unmarked : marked place (.map entries) = .map entries := by
    cases place <;> rfl
  rw [unmarked, Tree.walkWith, Tree.erase, Tree.eraseEntries_eq_map]
  apply congrArg Tree.map
  apply List.map_congr_left
  intro entry mem
  exact congrArg (Prod.mk entry.1) (below entry mem .elsewhere)

theorem walkWith_marked (tree : Tree) (place : Place) :
    (marked place tree).walkWith eraser = tree.erase place := by
  induction tree generalizing place with
  | list items ih => exact walkWith_marked_list ih place
  | map entries ih => exact walkWith_marked_map ih place
  | node kind members ih => exact walkWith_marked_node ih place
  | _ => cases place <;> simp [marked, blankedMessage, Tree.walkWith, Tree.erase]

end Trees

/-- A walk that erases each node as it meets it leaves the erased node. -/
theorem walkWith_eq_erase (node : Node) : node.tree.walkWith eraser = node.erase.tree := by
  rw [Node.tree_erase]
  exact walkWith_marked node.tree .elsewhere

end ContractTwins.Syntax
