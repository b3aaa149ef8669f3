import ContractTwins.Fingerprint.Record
import ContractTwins.SortedMap

/-!
Records that cannot be told apart: those with one hash under the same options.
-/
namespace ContractTwins

structure ClassKey where
  mode : String
  algorithm : String
  hash : String
  deriving DecidableEq

instance : Ord ClassKey :=
  ⟨compareLex (compareOn ClassKey.mode)
    (compareLex (compareOn ClassKey.algorithm) (compareOn ClassKey.hash))⟩

structure DuplicateGroup where
  hash : String
  options : HashOptions
  members : List Entry

namespace DuplicateGroup

def key (record : Record) : ClassKey :=
  ⟨record.options.mode.name, record.options.algorithm.name, record.hash⟩

def join (record : Record) : Option DuplicateGroup → DuplicateGroup
  | none => ⟨record.hash, record.options, [record.toEntry]⟩
  | some group => { group with members := group.members ++ [record.toEntry] }

def classes (records : List Record) : List (ClassKey × DuplicateGroup) :=
  records.foldl (fun found record => SortedMap.alter (key record) (join record) found) []

def find (records : List Record) : List DuplicateGroup :=
  ((classes records).map Prod.snd).filter fun group => 1 < group.members.length

end DuplicateGroup

end ContractTwins
