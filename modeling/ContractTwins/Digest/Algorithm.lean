import ContractTwins.Digest.Keccak
import ContractTwins.Digest.Sha1
import ContractTwins.Digest.Sha2
import ContractTwins.Text.Blank

namespace ContractTwins

inductive Algorithm where
  | sha1
  | sha256
  | sha512
  | keccak256
  deriving DecidableEq

namespace Algorithm

def all : List Algorithm := [.sha1, .sha256, .sha512, .keccak256]

def default : Algorithm := .sha1

def name : Algorithm → String
  | .sha1 => "sha1"
  | .sha256 => "sha256"
  | .sha512 => "sha512"
  | .keccak256 => "keccak256"

def ofName? (text : String) : Option Algorithm :=
  all.find? fun algorithm => algorithm.name == text

def smallLetter (c : Char) : Char :=
  if 'A' ≤ c ∧ c ≤ 'Z' then Char.ofNat (c.toNat + 32) else c

def parse? (text : String) : Option Algorithm :=
  ofName? (String.ofList ((Text.trim text.toList).map smallLetter))

def digestBytes : Algorithm → List UInt8 → List UInt8
  | .sha1 => Digest.Sha1.digest
  | .sha256 => Digest.Sha2.digest Digest.Sha2.sha256
  | .sha512 => Digest.Sha2.digest Digest.Sha2.sha512
  | .keccak256 => Digest.Keccak.digest

def hexByte (byte : UInt8) : List Char :=
  [Nat.digitChar (byte.toNat / 16), Nat.digitChar (byte.toNat % 16)]

def digest (algorithm : Algorithm) (bytes : List UInt8) : String :=
  String.ofList ((algorithm.digestBytes bytes).flatMap hexByte)

theorem ofName?_name (algorithm : Algorithm) : ofName? algorithm.name = some algorithm := by
  cases algorithm <;> decide

theorem name_injective {a b : Algorithm} (same : a.name = b.name) : a = b := by
  have named := ofName?_name a
  rw [same, ofName?_name] at named
  exact (Option.some.inj named).symm

end Algorithm

end ContractTwins
