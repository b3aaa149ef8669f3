import ContractTwins.CommandLine.Arguments
import ContractTwins.Match.Engine

/-!
What a command answers, given what is found under each path. A file that fails is reported and the
others go on; a wrong option or an unreadable corpus ends the run.
-/
namespace ContractTwins.CommandLine

open Syntax

inductive FileError where
  | unreadable (file : String) (error : ReadError)
  | notJson (file : String) (text : String) (fault : Json.Fault)
  | notATree (file : String) (error : LiftError)
  | failed (file : String) (error : FingerprintError)

def FileError.message : FileError → String
  | .unreadable file error => "failed to read " ++ file ++ ": " ++ error.message
  | .notJson file text fault => file ++ " is not valid JSON: " ++ fault.message text
  | .notATree file error => file ++ " is not a syntax tree: " ++ error.message
  | .failed file error => file ++ ": " ++ error.message

inductive RunError where
  | options (error : FingerprintError)
  | corpus (error : CorpusError)

def RunError.message : RunError → String
  | .options error => error.message
  | .corpus error => error.message

/-- What a run leaves: the lines of its output, what it reports as an error, and whether all went
well. What is only logged is no part of it. -/
structure Outcome where
  output : List String
  reports : List String
  success : Bool

def excludedParts : List String := ["mock", "test", ".t.", "migrations"]

def baseName (path : String) : String :=
  let parts := (Text.pieces '/' path.toList).map String.ofList
  match (parts.filter fun part => part ≠ "" && part ≠ ".").getLast? with
  | some name => if name = ".." then "" else name
  | none => ""

/-- A letter without its case. Of all letters beyond ASCII, the Kelvin sign alone has a small form
that can stand in an excluded part. -/
def caseless (c : Char) : Char :=
  if c.toNat = 0x212A then 'k' else Algorithm.smallLetter c

def occurs (part : List Char) : List Char → Bool
  | [] => part.isEmpty
  | c :: rest => part.isPrefixOf (c :: rest) || occurs part rest

def isExcluded (path : String) : Bool :=
  let name := (baseName path).toList.map caseless
  excludedParts.any fun part => occurs part.toList name

def basePrefix (basePath : String) : String :=
  if basePath = "" ∨ basePath.endsWith "/" then basePath else basePath ++ "/"

def readText (files : Files) (file : String) : Except ReadError String :=
  match files.read file with
  | .error error => .error error
  | .ok content =>
    match Text.ofBytes? content with
    | some text => .ok text
    | none => .error .notUtf8

def readDocument (files : Files) (file : String) : Except FileError Node :=
  match readText files file with
  | .error error => .error (.unreadable file error)
  | .ok text =>
    match Json.read text with
    | .error fault => .error (.notJson file text fault)
    | .ok json =>
      match lift json with
      | .error error => .error (.notATree file error)
      | .ok document => .ok document

def fileRecords (files : Files) (options : Options) (before file : String) :
    Except FileError (List Record) :=
  match readDocument files file with
  | .error error => .error error
  | .ok document =>
    match fingerprint document options (some (before ++ file)) with
    | .ok records => .ok records
    | .error error => .error (.failed file error)

def inputRecords (files : Files) (options : Options) (before : String) (paths : List String) :
    List (Except FileError (List Record)) :=
  (paths.filter fun path => !isExcluded path).map (fileRecords files options before)

def recordsOf (results : List (Except FileError (List Record))) : List Record :=
  (results.filterMap Except.toOption).flatten

def errorsOf (results : List (Except FileError (List Record))) : List FileError :=
  results.filterMap fun
    | .ok _ => none
    | .error error => some error

def outcomeOf (results : List (Except FileError (List Record))) (output : List String) : Outcome :=
  let errors := errorsOf results
  { output
    reports := errors.map fun error => "ERROR processing file: " ++ error.message
    success := errors.isEmpty }

def matchLines (results : Results) : List String :=
  results.groups.flatMap fun entry =>
    ("**** MATCH ****: " ++ entry.1.path ++ " :: " ++ entry.1.name) ::
      entry.2.found.map fun found =>
        "    :: " ++ found.name ++ " :: " ++ found.path.getD "" ++ "  (mode=" ++
          found.options.mode ++ ")"

def duplicateLines (groups : List DuplicateGroup) : List String :=
  groups.flatMap fun group =>
    ("**** DUPLICATE ****: " ++ group.hash ++ " (mode=" ++ group.options.mode.name ++ ")") ::
      group.members.map fun entry => "    :: " ++ entry.name ++ " :: " ++ entry.path.getD ""

def entryLines (records : List Record) : List String :=
  records.map fun record => record.toEntry.toJson.render

def inputOptions (input : Input) : Except RunError Options :=
  (Options.parse input.algorithm input.modes).mapError .options

/-- Runs a command. A corpus is loaded before the options are looked at, and these before any
file. -/
def execute (files : Files) : Command → Except RunError Outcome
  | .hash input basePath => do
    let options ← inputOptions input
    let results := inputRecords files options (basePrefix basePath) input.files
    pure (outcomeOf results (entryLines (recordsOf results)))
  | .compare input sources json => do
    let places := sources.map fun source => .any (.ofText source)
    let corpus ← (Corpus.empty.loadAll files places).mapError .corpus
    let options ← inputOptions input
    let results := inputRecords files options "" input.files
    let found := (Engine.mk options corpus).compareRecords (recordsOf results)
    pure (outcomeOf results (if json then [found.toJson.renderPretty] else matchLines found))
  | .dupes input => do
    let options ← inputOptions input
    let results := inputRecords files options "" input.files
    pure (outcomeOf results (duplicateLines (DuplicateGroup.find (recordsOf results))))

def run (files : Files) (command : Command) : Outcome :=
  match execute files command with
  | .ok outcome => outcome
  | .error error => ⟨[], ["error: " ++ error.message], false⟩

def usageStatus : Nat := 2

def Outcome.status (outcome : Outcome) : Nat := if outcome.success then 0 else 1

def Command.paths : Command → List String
  | .hash input _ => input.files
  | .compare input sources _ => sources ++ input.files
  | .dupes input => input.files

end ContractTwins.CommandLine
