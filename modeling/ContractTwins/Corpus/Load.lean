import ContractTwins.Corpus.Entry
import ContractTwins.Files.Basic

/-!
The text of a corpus and where it comes from. A line that is not blank is one entry; a bad line is
reported by its number. A source gives all its entries or none: a stream is read line by line, a
file as a whole, and a directory file by file in the order of their names.
-/
namespace ContractTwins

inductive CorpusError where
  | unreadable (origin : String) (error : ReadError)
  | badEntry (origin : String) (line : Nat) (text : String) (fault : Json.Fault)

namespace CorpusError

def origin : CorpusError → String
  | .unreadable origin _ => origin
  | .badEntry origin _ _ _ => origin

def line? : CorpusError → Option Nat
  | .unreadable _ _ => none
  | .badEntry _ line _ _ => some line

def message : CorpusError → String
  | .unreadable origin error =>
    "failed to read corpus source " ++ origin ++ ": " ++ error.message
  | .badEntry origin line text fault =>
    "invalid corpus record in " ++ origin ++ " at line " ++ toString line ++ ": " ++
      fault.message text

end CorpusError

namespace Entry

def ofLine (origin : String) (number : Nat) (line : List Char) :
    Except CorpusError (Option Entry) :=
  match Text.trim line with
  | [] => .ok none
  | trimmed =>
    let text := String.ofList trimmed
    match form.read text with
    | .ok entry => .ok (some entry)
    | .error fault => .error (.badEntry origin number text fault)

def ofLines (origin : String) (number : Nat) :
    List (Except ReadError (List Char)) → Except CorpusError (List Entry)
  | [] => .ok []
  | .error error :: _ => .error (.unreadable origin error)
  | .ok line :: rest => do
    let entry ← ofLine origin number line
    let entries ← ofLines origin (number + 1) rest
    pure (entry.toList ++ entries)

def ofText (origin text : String) : Except CorpusError (List Entry) :=
  ofLines origin 1 ((Text.pieces '\n' text.toList).map .ok)

def decodeLine (line : List UInt8) : Except ReadError (List Char) :=
  match Text.ofBytes? line with
  | some text => .ok text.toList
  | none => .error .notUtf8

def ofStream (origin : String) (content : List UInt8) : Except CorpusError (List Entry) :=
  ofLines origin 1 ((Text.pieces 10 content).map decodeLine)

/-- The entries in a stream that fails after some content. The line that it fails in is lost. -/
def ofBroken (origin : String) (content : List UInt8) (error : ReadError) :
    Except CorpusError (List Entry) :=
  ofLines origin 1 ((Text.pieces 10 content).dropLast.map decodeLine ++ [.error error])

def ofFile (files : Files) (path : Path) : Except CorpusError (List Entry) :=
  match files.read path with
  | .error error => .error (.unreadable path.text error)
  | .ok content =>
    match Text.ofBytes? content with
    | some text => ofText path.text text
    | none => .error (.unreadable path.text .notUtf8)

def isCorpusName (name : Path) : Bool :=
  let ending := Text.bytes ".json"
  ending.isSuffixOf name.bytes && ending.length < name.bytes.length

/-- The corpus files of a directory, in the order of their names. A name whose path is not known to
lead to a file is passed over. -/
def corpusFiles (files : Files) (directory : Path) (names : List Path) : List Path :=
  let isCorpusFile (name : Path) : Bool :=
    files.isFile (directory.join name) && isCorpusName name
  (names.filter isCorpusFile).mergeSort fun a b => decide (a.bytes ≤ b.bytes)

def ofDirectory (files : Files) (directory : Path) : Except CorpusError (List Entry) :=
  match files.list directory with
  | .error error => .error (.unreadable directory.text error)
  | .ok names => do
    let entries ← (corpusFiles files directory names).mapM fun name =>
      ofFile files (directory.join name)
    pure entries.flatten

end Entry

inductive Source where
  | stream (origin : String) (content : List UInt8)
  | broken (origin : String) (content : List UInt8) (error : ReadError)
  | file (path : Path)
  | directory (path : Path)
  | any (path : Path)

def Source.entries (files : Files) : Source → Except CorpusError (List Entry)
  | .stream origin content => Entry.ofStream origin content
  | .broken origin content error => Entry.ofBroken origin content error
  | .file path => Entry.ofFile files path
  | .directory path => Entry.ofDirectory files path
  | .any path =>
    if files.isDirectory path then Entry.ofDirectory files path else Entry.ofFile files path

end ContractTwins
