import ContractTwins.Digest.Algorithm
import ContractTwins.Json.Printer
import ContractTwins.Syntax.Tree
import ContractTwins.Text.Utf8

/-!
The canonical encoding of a node: the version of the encoding and the node's compact JSON, whose
keys ascend whatever order they were parsed in. Digests are taken of its bytes.
-/
namespace ContractTwins.Syntax.Node

/-- Encodings of another version start otherwise, so the two never match. -/
def encodingVersion : Nat := 1

def digestList (digests : List String) : Json := .list (digests.map .text)

def versioned (json : Json) : String :=
  "v" ++ toString encodingVersion ++ ":" ++ json.render

def encode (node : Node) : String := versioned node.toJson

/-- The encoding of a node with digests in the place of what stands under a name. A name that the
node does not have changes nothing. -/
def encodeWith (node : Node) (name : String) (digests : List String) : String :=
  versioned (node.toJson.replaceMember name (digestList digests))

def digest (node : Node) (algorithm : Algorithm) : String :=
  algorithm.digest (Text.bytes node.encode)

def digestWith (node : Node) (name : String) (digests : List String) (algorithm : Algorithm) :
    String :=
  algorithm.digest (Text.bytes (node.encodeWith name digests))

end ContractTwins.Syntax.Node
