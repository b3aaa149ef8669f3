import ContractTwins.Corpus.Basic

/-!
A corpus that is kept from one operation to the next, and the snapshots that were taken of it. An
operation may change the corpus before it fails: what it leaves is decided by the order of its work.
-/
namespace ContractTwins

structure SharedCorpus where
  current : Corpus
  snapshots : List Corpus

namespace SharedCorpus

/-- Work on a shared corpus. What was changed before a failure stays changed. -/
abbrev Work := ExceptT CorpusError (StateM SharedCorpus)

inductive Operation where
  | extend (entries : List Entry)
  | replace (entries : List Entry)
  | load (files : Files) (source : Source)
  | snapshot

def append (entries : List Entry) : Work Nat := do
  modify fun shared => { shared with current := shared.current.extend entries }
  pure entries.length

/-- Performs an operation, and says how many entries it brought. A source is read to its end before
anything is added. -/
def Operation.perform : Operation → Work Nat
  | .extend entries => append entries
  | .replace entries => do
    modify fun shared => { shared with current := ⟨entries⟩ }
    pure entries.length
  | .load files source => do
    let entries ← source.entries files
    append entries
  | .snapshot => do
    modify fun shared => { shared with snapshots := shared.snapshots ++ [shared.current] }
    pure 0

def step (shared : SharedCorpus) (operation : Operation) : Except CorpusError Nat × SharedCorpus :=
  operation.perform.run shared

def run (shared : SharedCorpus) :
    List Operation → SharedCorpus × List (Except CorpusError Nat)
  | [] => (shared, [])
  | operation :: rest =>
    let (answer, next) := shared.step operation
    let (last, answers) := run next rest
    (last, answer :: answers)

end SharedCorpus

end ContractTwins
