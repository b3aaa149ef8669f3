/-!
Command lines. An option may stand before or after files, its value beside it or attached to it.
After two dashes everything is a file.
-/
namespace ContractTwins.CommandLine

structure Input where
  files : List String
  modes : String
  algorithm : String

inductive Command where
  | hash (input : Input) (basePath : String)
  | compare (input : Input) (sources : List String) (json : Bool)
  | dupes (input : Input)

structure OptionRule where
  long : String
  short : Option Char
  takesValue : Bool

inductive Given where
  | file (path : String)
  | value (long value : String)
  | flag (long : String)

inductive Argument where
  | given (given : Given)
  | awaitsValue (long : String)
  | unknown

def ofLong (rules : List OptionRule) (body : List Char) : Argument :=
  let name := String.ofList (body.takeWhile fun c => c ≠ '=')
  match rules.find? fun rule => rule.long == name, body.dropWhile fun c => c ≠ '=' with
  | none, _ => .unknown
  | some rule, [] => if rule.takesValue then .awaitsValue rule.long else .given (.flag rule.long)
  | some rule, _ :: attached =>
    if rule.takesValue then .given (.value rule.long (String.ofList attached)) else .unknown

def ofShort (rules : List OptionRule) (letter : Char) (attached : List Char) : Argument :=
  match rules.find? fun rule => rule.short == some letter, attached with
  | none, _ => .unknown
  | some rule, [] => .awaitsValue rule.long
  | some rule, '=' :: value => .given (.value rule.long (String.ofList value))
  | some rule, value => .given (.value rule.long (String.ofList value))

/-- Reads one argument. A single dash is a file. -/
def classify (rules : List OptionRule) (argument : String) : Argument :=
  match argument.toList with
  | '-' :: '-' :: body => ofLong rules body
  | '-' :: letter :: attached => ofShort rules letter attached
  | _ => .given (.file argument)

def looksLikeOption (argument : String) : Bool :=
  match argument.toList with
  | '-' :: _ :: _ => true
  | _ => false

def givens? (rules : List OptionRule) : List String → Option (List Given)
  | [] => some []
  | argument :: rest =>
    if argument = "--" then some (rest.map .file)
    else
      match classify rules argument, rest with
      | .given given, rest => (givens? rules rest).map fun more => given :: more
      | .awaitsValue long, value :: rest =>
        if looksLikeOption value then none
        else (givens? rules rest).map fun more => .value long value :: more
      | .awaitsValue _, [] => none
      | .unknown, _ => none

def files (givens : List Given) : List String :=
  givens.filterMap fun
    | .file path => some path
    | _ => none

def values (long : String) (givens : List Given) : List String :=
  givens.filterMap fun
    | .value name value => if name = long then some value else none
    | _ => none

def single? (long standard : String) (givens : List Given) : Option String :=
  match values long givens with
  | [] => some standard
  | [value] => some value
  | _ => none

def flag? (long : String) (givens : List Given) : Option Bool :=
  let times := givens.countP fun
    | .flag name => name == long
    | _ => false
  if times ≤ 1 then some (times = 1) else none

def modesRule : OptionRule := ⟨"modes", some 'm', true⟩
def algorithmRule : OptionRule := ⟨"algorithm", some 'a', true⟩
def basePathRule : OptionRule := ⟨"base-path", some 'b', true⟩
def sourceRule : OptionRule := ⟨"db", some 'd', true⟩
def jsonRule : OptionRule := ⟨"json", none, false⟩

/-- The input of a command: one file at least, and no empty path. -/
def input? (givens : List Given) : Option Input := do
  let paths := files givens
  if paths.isEmpty || paths.contains "" then none
  let modes ← single? "modes" "AST_EXACT,AST_STRUCTURE" givens
  let algorithm ← single? "algorithm" "sha1" givens
  pure ⟨paths, modes, algorithm⟩

def parse? : List String → Option Command
  | "hash" :: rest => do
    let givens ← givens? [modesRule, algorithmRule, basePathRule] rest
    let input ← input? givens
    let basePath ← single? "base-path" "" givens
    pure (.hash input basePath)
  | "compare" :: rest => do
    let givens ← givens? [modesRule, algorithmRule, sourceRule, jsonRule] rest
    let input ← input? givens
    let sources := values "db" givens
    if sources.isEmpty || sources.contains "" then none
    let json ← flag? "json" givens
    pure (.compare input sources json)
  | "dupes" :: rest => do
    let givens ← givens? [modesRule, algorithmRule] rest
    let input ← input? givens
    pure (.dupes input)
  | _ => none

end ContractTwins.CommandLine
