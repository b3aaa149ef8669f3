import ContractTwins.Corpus.Load

/-!
A corpus: entries in the order in which they came. It only grows, unless it is replaced as a whole,
and a source that fails adds nothing.
-/
namespace ContractTwins

structure Corpus where
  entries : List Entry

namespace Corpus

def empty : Corpus := ⟨[]⟩

def size (corpus : Corpus) : Nat := corpus.entries.length

def extend (corpus : Corpus) (entries : List Entry) : Corpus := ⟨corpus.entries ++ entries⟩

def byHash (corpus : Corpus) (hash : String) : List Entry :=
  corpus.entries.filter fun entry => entry.hash == hash

def load (files : Files) (corpus : Corpus) (source : Source) : Except CorpusError (Corpus × Nat) :=
  match source.entries files with
  | .ok entries => .ok (corpus.extend entries, entries.length)
  | .error error => .error error

def loadAll (files : Files) (corpus : Corpus) (sources : List Source) :
    Except CorpusError Corpus :=
  sources.foldlM (fun corpus source => (corpus.load files source).map Prod.fst) corpus

end Corpus

end ContractTwins
