import ContractTwins.Corpus.Entry

/-!
Fingerprints of contracts. A record is the fingerprint of one contract under one mode, with the
contract's declarations sorted out for reports. A document gives a record for each mode and each
contract that stands directly in it.
-/
namespace ContractTwins

open Syntax

structure Base where
  name : String
  arguments : List Node

structure Model where
  name : String
  kind : ContractKind
  bases : List Base
  /-- Structs, events, enums, using directives and whatever is neither of the other two. -/
  typeDeclarations : List Node
  stateVariables : List Node
  functions : List Node

namespace Base

def ofNode? (node : Node) : Option Base :=
  if node.kind = "InheritanceSpecifier" then
    let name := match node.nodeAt? "baseName" with
      | some type => if type.kind = "UserDefinedTypeName" then type.textAt "namePath" else ""
      | none => ""
    some ⟨name, node.nodesAt "arguments"⟩
  else none

def toJson (base : Base) : Json :=
  .object [("name", .text base.name), ("arguments", .list (base.arguments.map Node.toJson))]

end Base

namespace Model

def isFunction (node : Node) : Bool :=
  node.kind == "FunctionDefinition" || node.kind == "ModifierDefinition"

def isStateVariable (node : Node) : Bool := node.kind == "StateVariableDeclaration"

/-- The contract kind that a contract names. Lifting lets no other text through than the names of
contract kinds. -/
def contractKind (node : Node) : ContractKind :=
  (ContractKind.ofName? (node.textAt "kind")).getD .contract

def ofContract (node : Node) : Model :=
  let declarations := node.nodesAt "subNodes"
  { name := node.textAt "name"
    kind := contractKind node
    bases := (node.nodesAt "baseContracts").filterMap Base.ofNode?
    typeDeclarations :=
      declarations.filter fun node => !isFunction node && !isStateVariable node
    stateVariables := declarations.filter isStateVariable
    functions := declarations.filter isFunction }

end Model

structure Record where
  model : Model
  hash : String
  options : HashOptions
  path : Option String

def HashOptions.toJson (options : HashOptions) : Json :=
  (EntryOptions.ofOptions options).toJson

namespace Record

def digest (node : Node) (options : HashOptions) : Except FingerprintError String :=
  match options.mode with
  | .exact => .ok (node.digest options.algorithm)
  | .structural =>
    match Canonical.ofNode node options.algorithm with
    | .ok canonical => .ok canonical.digest
    | .error error => .error (.ofCanonical error)

def ofNode (node : Node) (options : HashOptions) (path : Option String) :
    Except FingerprintError Record :=
  if isContract node then
    (digest node options).map fun hash => ⟨Model.ofContract node, hash, options, path⟩
  else .error (.invalidInput node.kind)

def name (record : Record) : String := record.model.name

def toEntry (record : Record) : Entry :=
  ⟨record.hash, record.name, record.path, .ofOptions record.options⟩

def toJson (record : Record) : Json :=
  let nodes (list : List Node) : Json := .list (list.map Node.toJson)
  let path := match record.path with
    | some path => [("path", Json.text path)]
    | none => []
  .object ([("name", .text record.name), ("kind", .text record.model.kind.name),
    ("baseContracts", .list (record.model.bases.map Base.toJson)),
    ("typeDeclarations", nodes record.model.typeDeclarations),
    ("stateVars", nodes record.model.stateVariables),
    ("functions", nodes record.model.functions), ("hash", .text record.hash),
    ("options", record.options.toJson)] ++ path)

def same (a b : Record) : Bool :=
  let sameBase (a b : Base) : Bool :=
    a.name == b.name && a.arguments.isEqv b.arguments Node.same
  a.name == b.name && a.model.kind == b.model.kind &&
    a.model.bases.isEqv b.model.bases sameBase &&
    a.model.typeDeclarations.isEqv b.model.typeDeclarations Node.same &&
    a.model.stateVariables.isEqv b.model.stateVariables Node.same &&
    a.model.functions.isEqv b.model.functions Node.same &&
    a.hash == b.hash && a.options == b.options && a.path == b.path

end Record

/-- The contracts that stand directly in a document: a source unit, or a contract by itself. -/
def contractsOf (document : Node) : Except FingerprintError (List Node) :=
  if document.kind = "SourceUnit" then
    .ok ((document.nodesAt "children").filter isContract)
  else if isContract document then .ok [document]
  else .error (.invalidInput document.kind)

/-- The records of a document: mode by mode, and in each mode contract by contract. -/
def fingerprint (document : Node) (options : Options) (path : Option String) :
    Except FingerprintError (List Record) := do
  let contracts ← contractsOf document
  let byMode ← options.modes.mapM fun mode =>
    contracts.mapM fun contract => Record.ofNode contract ⟨options.algorithm, mode⟩ path
  pure byMode.flatten

def fingerprintJson (document : Json) (options : Options) (path : Option String) :
    Except FingerprintError (List Record) :=
  match lift document with
  | .ok node => fingerprint node options path
  | .error error => .error (.invalidTree error)

end ContractTwins
