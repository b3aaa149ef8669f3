import ContractTwins.Syntax.Tree

/-!
Lifting a JSON value to a syntax tree. Each member of a node is lifted by its role: a field by its
shape, any other member as an attribute. The first problem is reported: fields come first, in the
order of the schema, then attributes.
-/
namespace ContractTwins.Syntax

inductive LiftError where
  | notANode
  | missingField (kind field : String)
  | invalidField (kind field : String)
  | unknownContractKind (name : String)

def LiftError.message : LiftError → String
  | .notANode => "expected a syntax node (JSON object with a string `type` field)"
  | .missingField kind field => kind ++ " node is missing field `" ++ field ++ "`"
  | .invalidField kind field => kind ++ "." ++ field ++ " has an unexpected shape"
  | .unknownContractKind name => "unknown contract kind `" ++ name ++ "`"

def tag? (members : List (String × Json)) : Option String :=
  match members.lookup tagKey with
  | some (.text kind) => some kind
  | _ => none

def scalarField (kind name : String) : Shape → Json → Except LiftError Tree
  | .optionalText, .null => .ok .null
  | .optionalText, .text value => .ok (.text value)
  | .optionalFlag, .null => .ok .null
  | .optionalFlag, .bool value => .ok (.bool value)
  | .text, .null => .error (.missingField kind name)
  | .text, .text value => .ok (.text value)
  | .contractKind, .null => .error (.missingField kind name)
  | .contractKind, .text value =>
    if (ContractKind.ofName? value).isSome then .ok (.text value)
    else .error (.unknownContractKind value)
  | _, _ => .error (.invalidField kind name)

def absentField (kind name : String) : Shape → Except LiftError Tree
  | .optionalText | .optionalFlag => .ok .null
  | .nodes => .ok (.list [])
  | .text | .contractKind | .node | .writtenNodes => .error (.missingField kind name)

def assemble (kind : String) (lifted : List (String × Except LiftError Tree)) :
    Except LiftError Tree := do
  let fields ← (fieldsOf kind).mapM fun field => do
    let value ← (lifted.lookup field.name).getD (absentField kind field.name field.shape)
    pure (field.name, value)
  let others := lifted.filter fun member => (shapeOf? kind member.1).isNone
  let attributes ← others.mapM fun member => do
    let value ← member.2
    pure (member.1, value)
  pure (.node kind (fields ++ attributes))

mutual

/-- A value where no field is: an object with a kind is a node, any other object a map that keeps
all its members. -/
def liftValue : Json → Except LiftError Tree
  | .null => .ok .null
  | .bool value => .ok (.bool value)
  | .number value => .ok (.number value)
  | .text value => .ok (.text value)
  | .list items => (liftItems items).map .list
  | .object members =>
    match tag? members with
    | some kind => assemble kind (liftMembers kind members)
    | none => (liftEntries members).map .map

def liftItems : List Json → Except LiftError (List Tree)
  | [] => .ok []
  | item :: rest => do
    let tree ← liftValue item
    let trees ← liftItems rest
    pure (tree :: trees)

def liftEntries : List (String × Json) → Except LiftError (List (String × Tree))
  | [] => .ok []
  | (key, value) :: rest => do
    let tree ← liftValue value
    let entries ← liftEntries rest
    pure ((key, tree) :: entries)

def liftNode : Json → Except LiftError Tree
  | .object members =>
    match tag? members with
    | some kind => assemble kind (liftMembers kind members)
    | none => .error .notANode
  | _ => .error .notANode

def liftNodes : List Json → Except LiftError (List Tree)
  | [] => .ok []
  | item :: rest => do
    let tree ← liftNode item
    let trees ← liftNodes rest
    pure (tree :: trees)

def liftField (kind name : String) (shape : Shape) : Json → Except LiftError Tree
  | .list items =>
    if shape = .nodes ∨ shape = .writtenNodes then (liftNodes items).map .list
    else .error (.invalidField kind name)
  | .object members =>
    if shape = .node then
      match tag? members with
      | some below => assemble below (liftMembers below members)
      | none => .error .notANode
    else .error (.invalidField kind name)
  | .null =>
    if shape = .nodes ∨ shape = .writtenNodes then .ok (.list [])
    else if shape = .node then .error (.missingField kind name)
    else scalarField kind name shape .null
  | scalar => scalarField kind name shape scalar

/-- The members of a node, each lifted by its role. The kind and the places are left out. -/
def liftMembers (kind : String) :
    List (String × Json) → List (String × Except LiftError Tree)
  | [] => []
  | (name, value) :: rest =>
    if name = tagKey ∨ name ∈ locationKeys then liftMembers kind rest
    else
      match shapeOf? kind name with
      | some shape => (name, liftField kind name shape value) :: liftMembers kind rest
      | none => (name, liftValue value) :: liftMembers kind rest

end

def lift (value : Json) : Except LiftError Node := do
  match ← liftNode value with
  | .node kind members => pure ⟨kind, members⟩
  | _ => throw .notANode

end ContractTwins.Syntax
