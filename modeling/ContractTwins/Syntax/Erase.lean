import ContractTwins.Syntax.Tree

/-!
Erasing identifiers. Names become empty and the anonymity of events is forgotten. So are the
messages of assertions: the text literals that are arguments of a call to `require` or `assert`.
Everything else stays as it is.
-/
namespace ContractTwins.Syntax

def nameFields : List (String × String) :=
  [("ContractDefinition", "name"), ("FunctionDefinition", "name"), ("ModifierDefinition", "name"),
   ("VariableDeclaration", "name"), ("Identifier", "name"), ("EventDefinition", "name"),
   ("StructDefinition", "name"), ("UsingForDeclaration", "libraryName"),
   ("UserDefinedTypeName", "namePath"), ("MemberAccess", "memberName")]

def assertionNames : List String := ["require", "assert"]

def isAssertionName : Tree → Bool
  | .node "Identifier" members =>
    match members.lookup "name" with
    | some (.text name) => assertionNames.contains name
    | _ => false
  | _ => false

/-- Is a node of this kind with these members a call of an assertion through its plain name? -/
def isAssertion (kind : String) (members : List (String × Tree)) : Bool :=
  kind == "FunctionCall" &&
    match members.lookup "expression" with
    | some callee => isAssertionName callee
    | none => false

inductive Place where
  | arguments
  | argument
  | elsewhere
  deriving DecidableEq

def Place.item : Place → Place
  | .arguments => .argument
  | _ => .elsewhere

def Place.member (asserts : Bool) (name : String) : Place :=
  if asserts && name == "arguments" then .arguments else .elsewhere

/-- What is written for a member instead of its value, if it is erased. -/
def erased? (place : Place) (kind name : String) (value : Tree) : Option Tree :=
  if nameFields.contains (kind, name) then some (.text "")
  else if kind = "EventDefinition" ∧ name = "isAnonymous" then some .null
  else if place = .argument ∧ kind = "StringLiteral" then
    match name, value with
    | "value", _ => some (.text "")
    | "parts", .list _ => some (.list [])
    | _, _ => none
  else none

namespace Tree

mutual

def erase (place : Place) : Tree → Tree
  | .node kind members => .node kind (eraseMembers place kind (isAssertion kind members) members)
  | .list items => .list (eraseItems place.item items)
  | .map entries => .map (eraseEntries entries)
  | .null => .null
  | .bool value => .bool value
  | .number value => .number value
  | .text value => .text value

def eraseItems (place : Place) : List Tree → List Tree
  | [] => []
  | item :: rest => erase place item :: eraseItems place rest

def eraseEntries : List (String × Tree) → List (String × Tree)
  | [] => []
  | (key, value) :: rest => (key, erase .elsewhere value) :: eraseEntries rest

/-- The members of a node. `asserts` says that the node is the call of an assertion. -/
def eraseMembers (place : Place) (kind : String) (asserts : Bool) :
    List (String × Tree) → List (String × Tree)
  | [] => []
  | (name, value) :: rest =>
    (name, (erased? place kind name value).getD (erase (Place.member asserts name) value)) ::
      eraseMembers place kind asserts rest

end

end Tree

def Node.erase (node : Node) : Node :=
  ⟨node.kind,
    Tree.eraseMembers .elsewhere node.kind (isAssertion node.kind node.members) node.members⟩

theorem Node.tree_erase (node : Node) : node.erase.tree = node.tree.erase .elsewhere := by
  rw [Node.tree, Node.tree, Tree.erase, Node.erase]

end ContractTwins.Syntax
