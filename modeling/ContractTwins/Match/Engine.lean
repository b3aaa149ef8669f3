import ContractTwins.Match.Duplicates
import ContractTwins.Match.Results

namespace ContractTwins

structure Engine where
  options : Options
  corpus : Corpus

namespace Engine

open Syntax

def fingerprint (engine : Engine) (document : Node) (path : Option String) :
    Except FingerprintError (List Record) :=
  ContractTwins.fingerprint document engine.options path

def fingerprintJson (engine : Engine) (document : Json) (path : Option String) :
    Except FingerprintError (List Record) :=
  ContractTwins.fingerprintJson document engine.options path

def compareInto (engine : Engine) (document : Node) (path : Option String) (results : Results) :
    Except FingerprintError Results :=
  (engine.fingerprint document path).map fun records =>
    results.addRecords engine.corpus.entries records

def compare (engine : Engine) (document : Node) (path : Option String) :
    Except FingerprintError Results :=
  engine.compareInto document path .empty

def compareRecords (engine : Engine) (records : List Record) : Results :=
  Results.empty.addRecords engine.corpus.entries records

end Engine

end ContractTwins
