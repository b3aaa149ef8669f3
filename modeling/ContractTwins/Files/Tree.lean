import ContractTwins.Files.Basic

/-!
Files and directories as values. An empty part of a path and a single point stand for the directory
itself, two points for the one above it.
-/
namespace ContractTwins

inductive FileTree where
  | file (content : List UInt8)
  | directory (entries : List (Path × FileTree))

namespace FileTree

def nameLimit : Nat := 255

def pathLimit : Nat := 4095

def follow (above : List FileTree) : FileTree → List Path → Except ReadError FileTree
  | here, [] => .ok here
  | .file _, _ :: _ => .error .notADirectory
  | .directory entries, part :: rest =>
    if part = "" ∨ part = "." then follow above (.directory entries) rest
    else if part = ".." then
      match above with
      | [] => follow [] (.directory entries) rest
      | parent :: higher => follow higher parent rest
    else if nameLimit < part.bytes.length then .error .nameTooLong
    else
      match entries.lookup part with
      | none => .error .notFound
      | some below => follow (.directory entries :: above) below rest

/-- What a path leads to, seen from the working directory `home`. A path that is too long leads
nowhere, and the directory above the root is the root. -/
def look (home : List Path) (tree : FileTree) (path : Path) : Except ReadError FileTree :=
  if 0 ∈ path.bytes then .error .badName
  else if pathLimit < path.bytes.length then .error .nameTooLong
  else if path.bytes = [] then .error .notFound
  else if path.isAbsolute then tree.follow [] path.parts
  else tree.follow [] (home ++ path.parts)

def kind : FileTree → FileKind
  | .file _ => .file
  | .directory _ => .directory

def files (home : List Path) (tree : FileTree) : Files where
  kind? path := (tree.look home path).toOption.map kind
  list path :=
    match tree.look home path with
    | .error error => .error error
    | .ok (.file _) => .error .notADirectory
    | .ok (.directory entries) => .ok (entries.map Prod.fst)
  read path :=
    match tree.look home path with
    | .error error => .error error
    | .ok (.directory _) => .error .isADirectory
    | .ok (.file content) => .ok content

end FileTree

end ContractTwins
