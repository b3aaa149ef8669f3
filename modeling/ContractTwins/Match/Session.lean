import ContractTwins.Corpus.Shared
import ContractTwins.Match.Engine

/-!
A session: comparisons with a corpus that changes between them, gathered in one result.
-/
namespace ContractTwins

open Syntax

structure Session where
  shared : SharedCorpus
  results : Results

namespace Session

inductive Step where
  | change (operation : SharedCorpus.Operation)
  | compare (options : Options) (document : Node) (path : Option String)

/-- Work in a session. What was changed before a failure stays changed. -/
abbrev Work := ExceptT FingerprintError (StateM Session)

def compareInto (options : Options) (document : Node) (path : Option String) : Work Unit := do
  let session ← get
  let records ← (Engine.mk options session.shared.current).fingerprint document path
  let results := session.results.addRecords session.shared.current.entries records
  set { session with results }

def step (session : Session) : Step → Session
  | .change operation => { session with shared := (session.shared.step operation).2 }
  | .compare options document path => ((compareInto options document path).run session).2

def run (session : Session) (steps : List Step) : Session := steps.foldl step session

end Session

end ContractTwins
