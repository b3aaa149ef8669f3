import ContractTwins.Canonical.Encoding
import ContractTwins.SortedMap
import ContractTwins.Syntax.Erase

/-!
The canonical form of a contract. Identifiers are erased, and the declarations are reduced to their
digests, kind by kind, and these are put in ascending order, so neither the names nor the order of
declarations count. Neither does the order of the members of a struct that is a declaration.
-/
namespace ContractTwins

open Syntax

inductive CanonicalError where
  | notAContract (kind : String)
  | declarationCountChanged (before after : Nat)

def CanonicalError.message : CanonicalError → String
  | .notAContract kind => "expected a ContractDefinition, got " ++ kind
  | .declarationCountChanged before after =>
    "declaration count changed during canonicalization (" ++ toString before ++ " before, " ++
      toString after ++ " after)"

structure Canonical where
  node : Node
  declarations : List String
  algorithm : Algorithm

def isContract (node : Node) : Bool := node.kind == "ContractDefinition"

def ascending (digests : List String) : List String :=
  digests.mergeSort fun a b => decide (a ≤ b)

/-- The digest of a declaration. The members of a struct are reduced to their own digests. -/
def declarationDigest (algorithm : Algorithm) (node : Node) : String :=
  if node.kind = "StructDefinition" then
    let members := (node.nodesAt "members").map fun member => member.digest algorithm
    node.digestWith "members" (ascending members) algorithm
  else node.digest algorithm

def sortIn (kinds : List (String × List Node)) (node : Node) : List (String × List Node) :=
  SortedMap.alter node.kind (fun held => held.getD [] ++ [node]) kinds

def byKind (nodes : List Node) : List (String × List Node) := nodes.foldl sortIn []

namespace Canonical

def ofNode (node : Node) (algorithm : Algorithm) : Except CanonicalError Canonical :=
  if isContract node then
    let erased := node.erase
    let declarations := erased.nodesAt "subNodes"
    let digests := ascending ((byKind declarations).flatMap fun kind =>
      kind.2.map (declarationDigest algorithm))
    if digests.length = declarations.length then
      .ok ⟨erased.withMember "subNodes" (.list []), digests, algorithm⟩
    else .error (.declarationCountChanged declarations.length digests.length)
  else .error (.notAContract node.kind)

def digest (canonical : Canonical) : String :=
  canonical.node.digestWith "subNodes" canonical.declarations canonical.algorithm

end Canonical

end ContractTwins
