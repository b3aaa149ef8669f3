/-!
The node kinds whose fields are looked into, and the shape each of these fields has. A kind that is
not in the table has no fields of its own: all its members are attributes.
-/
namespace ContractTwins.Syntax

inductive ContractKind where
  | contract
  | interface
  | library
  | abstract
  deriving DecidableEq

namespace ContractKind

def all : List ContractKind := [.contract, .interface, .library, .abstract]

def name : ContractKind → String
  | .contract => "contract"
  | .interface => "interface"
  | .library => "library"
  | .abstract => "abstract"

def ofName? (text : String) : Option ContractKind :=
  all.find? fun kind => kind.name == text

theorem ofName?_name (kind : ContractKind) : ofName? kind.name = some kind := by
  cases kind <;> decide

end ContractKind

inductive Shape where
  | text
  | contractKind
  | optionalText
  | optionalFlag
  | node
  | nodes
  /-- A list of nodes that has to be written, if only as nothing. -/
  | writtenNodes
  deriving DecidableEq

structure Field where
  name : String
  shape : Shape
  deriving DecidableEq

/-- The typed kinds. Fields are listed in the order in which they are checked and walked. -/
def schema : List (String × List Field) :=
  [("SourceUnit", [⟨"children", .nodes⟩]),
   ("ContractDefinition",
    [⟨"name", .text⟩, ⟨"kind", .contractKind⟩, ⟨"baseContracts", .nodes⟩,
     ⟨"subNodes", .writtenNodes⟩]),
   ("InheritanceSpecifier", [⟨"baseName", .node⟩, ⟨"arguments", .nodes⟩]),
   ("FunctionDefinition", [⟨"name", .optionalText⟩]),
   ("ModifierDefinition", [⟨"name", .optionalText⟩]),
   ("EventDefinition", [⟨"name", .optionalText⟩, ⟨"isAnonymous", .optionalFlag⟩]),
   ("StructDefinition", [⟨"name", .optionalText⟩, ⟨"members", .nodes⟩]),
   ("StateVariableDeclaration", [⟨"variables", .nodes⟩]),
   ("VariableDeclaration", [⟨"name", .optionalText⟩]),
   ("UsingForDeclaration", [⟨"libraryName", .optionalText⟩]),
   ("UserDefinedTypeName", [⟨"namePath", .text⟩]),
   ("Identifier", [⟨"name", .optionalText⟩]),
   ("MemberAccess", [⟨"expression", .node⟩, ⟨"memberName", .text⟩]),
   ("FunctionCall", [⟨"expression", .node⟩, ⟨"arguments", .nodes⟩]),
   ("StringLiteral", [⟨"value", .text⟩])]

def isTyped (kind : String) : Bool := (schema.lookup kind).isSome

def fieldsOf (kind : String) : List Field := (schema.lookup kind).getD []

def shapeOf? (kind name : String) : Option Shape :=
  ((fieldsOf kind).find? fun field => field.name == name).map Field.shape

def tagKey : String := "type"

/-- The members that hold the place of a node in its source. A node does not keep them. -/
def locationKeys : List String := ["loc", "range"]

end ContractTwins.Syntax
