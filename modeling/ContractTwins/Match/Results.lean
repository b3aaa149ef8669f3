import ContractTwins.Corpus.Basic
import ContractTwins.Fingerprint.Record
import ContractTwins.SortedMap

/-!
Matches of records against a corpus. A record matches an entry that has its hash and names its
algorithm and its mode. Matches are grouped by the place and the name of the contract.
-/
namespace ContractTwins

/-- Where a contract came from, and its name. Without a path the place is empty. -/
structure MatchKey where
  path : String
  name : String
  deriving DecidableEq

namespace MatchKey

instance : Ord MatchKey := ⟨compareLex (compareOn path) (compareOn name)⟩

def ofRecord (record : Record) : MatchKey := ⟨record.path.getD "", record.name⟩

def text (key : MatchKey) : String := key.path ++ "::" ++ key.name

def toJson (key : MatchKey) : Json := .object [("path", .text key.path), ("name", .text key.name)]

end MatchKey

structure MatchGroup where
  /-- The first record with this key that had a match. -/
  target : Record
  found : List Entry

def MatchGroup.toJson (group : MatchGroup) : Json :=
  .object [("target", group.target.toJson), ("matches", .list (group.found.map Entry.toJson))]

structure Results where
  groups : List (MatchKey × MatchGroup)

namespace Results

def empty : Results := ⟨[]⟩

def size (results : Results) : Nat := results.groups.length

/-- Adds matches of a record under its key. A key keeps the record that it had first. -/
def add (results : Results) (target : Record) (found : List Entry) : Results :=
  let join : Option MatchGroup → MatchGroup
    | none => ⟨target, found⟩
    | some group => ⟨group.target, group.found ++ found⟩
  ⟨SortedMap.alter (.ofRecord target) join results.groups⟩

def get? (results : Results) (path name : String) : Option MatchGroup :=
  results.groups.lookup ⟨path, name⟩

/-- The groups under the texts of their keys. Two keys of one text are both written. -/
def toJson (results : Results) : Json :=
  .object (results.groups.map fun entry => (entry.1.text, entry.2.toJson))

def isMatch (record : Record) (entry : Entry) : Bool :=
  entry.hash == record.hash && entry.options.agrees record.options

def candidates (records : List Record) (entries : List Entry) : List Entry :=
  let hashes := records.map Record.hash
  entries.filter fun entry => hashes.contains entry.hash

def addMatches (entries : List Entry) (results : Results) (record : Record) : Results :=
  match entries.filter (isMatch record) with
  | [] => results
  | found => results.add record found

/-- Adds the matches of some records. The entries are narrowed to those with the hash of a record
first, and the records to those with the hash of such an entry. -/
def addRecords (results : Results) (entries : List Entry) (records : List Record) : Results :=
  let near := candidates records entries
  let hashes := near.map Entry.hash
  (records.filter fun record => hashes.contains record.hash).foldl (addMatches near) results

end Results

end ContractTwins
