import ContractTwins.CommandLine.Run

/-!
The command line on real files. Everything that a command may look at is read first; what it
answers is decided by `CommandLine.run`.
-/
namespace ContractTwins.Program

def readError : IO.Error → ReadError
  | .noFileOrDirectory .. => .notFound
  | .permissionDenied .. => .denied
  | .inappropriateType _ code _ =>
    if code = 21 ∨ code = 0 - 21 then .isADirectory else .notADirectory
  | other => .other (toString other)

def attempt {α : Type} (action : IO α) : IO (Except ReadError α) := do
  try
    pure (.ok (← action))
  catch error => pure (.error (readError error))

structure Found where
  kind? : Option FileKind
  list : Except ReadError (List String)
  read : Except ReadError (List UInt8)

def kind (metadata : IO.FS.Metadata) : FileKind :=
  match metadata.type with
  | .file => .file
  | .dir => .directory
  | .symlink | .other => .other

def kindOf (path : String) : IO (Option FileKind) := do
  let place : IO.FS.DirEntry := ⟨⟨path⟩, ""⟩
  let metadata ← attempt place.root.metadata
  pure (metadata.toOption.map kind)

def namesIn (path : String) : IO (Except ReadError (List String)) := do
  let place : IO.FS.DirEntry := ⟨⟨path⟩, ""⟩
  let entries ← attempt place.root.readDir
  pure (entries.map fun entries => (entries.map IO.FS.DirEntry.fileName).toList)

def contentOf (path : String) : IO (Except ReadError (List UInt8)) := do
  let content ← attempt (IO.FS.readBinFile path)
  pure (content.map fun content => content.data.toList)

def findIn (directory name : String) : IO (Path × Found) := do
  let place := Path.join directory name
  let kind? ← kindOf place.text
  let read ← if kind? = some .file then contentOf place.text else pure (.error .notFound)
  pure (place, ⟨kind?, .error .notADirectory, read⟩)

/-- What the system answers about a path and, if that is a directory, about all that it lists. -/
def find (path : String) : IO (List (Path × Found)) := do
  let list ← namesIn path
  let below ← (list.toOption.getD []).mapM (findIn path)
  pure ((Path.ofText path, ⟨← kindOf path, list, ← contentOf path⟩) :: below)

def filesOf (answers : List (Path × Found)) : Files where
  kind? path := (answers.lookup path).bind Found.kind?
  list path :=
    match answers.lookup path with
    | some found => found.list.map fun names => names.map Path.ofText
    | none => .error .notFound
  read path :=
    match answers.lookup path with
    | some found => found.read
    | none => .error .notFound

def usage : String :=
  "usage: contract-twins hash FILES.. [-m LIST] [-a ALGORITHM] [-b PATH]\n" ++
  "       contract-twins compare FILES.. -d SOURCE.. [--json] [-m LIST] [-a ALGORITHM]\n" ++
  "       contract-twins dupes FILES.. [-m LIST] [-a ALGORITHM]"

def runOn (arguments : List String) : IO UInt32 := do
  match CommandLine.parse? arguments with
  | none =>
    IO.eprintln usage
    pure (UInt32.ofNat CommandLine.usageStatus)
  | some command =>
    let answers ← command.paths.mapM find
    let outcome := CommandLine.run (filesOf answers.flatten) command
    IO.print (Text.unlines outcome.output)
    IO.eprint (Text.unlines outcome.reports)
    pure (UInt32.ofNat outcome.status)

end ContractTwins.Program

def main (arguments : List String) : IO UInt32 :=
  ContractTwins.Program.runOn arguments
