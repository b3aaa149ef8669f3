import ContractTwins.Fingerprint.Options
import ContractTwins.Json.Form

/-!
Corpus entries: what is kept of a fingerprint. The options are plain texts, as entries from elsewhere
may name algorithms and modes that are not known here; such an entry never matches.
-/
namespace ContractTwins

structure EntryOptions where
  algorithm : String
  mode : String
  deriving DecidableEq

structure Entry where
  hash : String
  name : String
  path : Option String
  options : EntryOptions
  deriving DecidableEq

namespace EntryOptions

def ofOptions (options : HashOptions) : EntryOptions :=
  ⟨options.algorithm.name, options.mode.name⟩

def agrees (entry : EntryOptions) (options : HashOptions) : Bool :=
  entry.algorithm == options.algorithm.name && entry.mode == options.mode.name

def toJson (options : EntryOptions) : Json :=
  .object [("algorithm", .text options.algorithm), ("mode", .text options.mode)]

def form : Json.Form EntryOptions :=
  .record "EntryOptions"
    [.of "algorithm" true .string fun algorithm options => { options with algorithm },
     .of "mode" true .string fun mode options => { options with mode }]
    ⟨"", ""⟩

end EntryOptions

namespace Entry

def toJson (entry : Entry) : Json :=
  let path := match entry.path with
    | some path => [("path", Json.text path)]
    | none => []
  .object ([("hash", .text entry.hash), ("name", .text entry.name)] ++ path ++
    [("options", entry.options.toJson)])

def form : Json.Form Entry :=
  .record "DatabaseEntry"
    [.of "hash" true .string fun hash entry => { entry with hash },
     .of "name" true .string fun name entry => { entry with name },
     .of "path" false (.optional .string) fun path entry => { entry with path },
     .of "options" true EntryOptions.form fun options entry => { entry with options }]
    ⟨"", "", none, ⟨"", ""⟩⟩

end Entry

end ContractTwins
