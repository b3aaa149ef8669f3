import ContractTwins.Text.Blank
import ContractTwins.Text.Utf8

/-!
What a program sees of files: what a path leads to, what a directory lists and what a file holds. A
system may answer one of these questions and refuse another.
-/
namespace ContractTwins

inductive ReadError where
  | notFound
  | denied
  | notADirectory
  | isADirectory
  | nameTooLong
  | badName
  | notUtf8
  | other (description : String)

def ReadError.message : ReadError → String
  | .notFound => "No such file or directory (os error 2)"
  | .denied => "Permission denied (os error 13)"
  | .notADirectory => "Not a directory (os error 20)"
  | .isADirectory => "Is a directory (os error 21)"
  | .nameTooLong => "File name too long (os error 36)"
  | .badName => "file name contained an unexpected NUL byte"
  | .notUtf8 => "stream did not contain valid UTF-8"
  | .other description => description

/-- A path, or a name in a directory. It is made of bytes, which need not be a text. -/
structure Path where
  bytes : List UInt8
deriving DecidableEq

namespace Path

def ofText (text : String) : Path := ⟨Text.bytes text⟩

instance : Coe String Path := ⟨ofText⟩

def text (path : Path) : String := Text.shown path.bytes

theorem text_ofText (text : String) : (ofText text).text = text := Text.shown_bytes text

def slash : UInt8 := 47

def parts (path : Path) : List Path := (Text.pieces slash path.bytes).map Path.mk

def isAbsolute (path : Path) : Bool := path.bytes.head? == some slash

def join (directory name : Path) : Path :=
  if directory.bytes = [] ∨ directory.bytes.getLast? = some slash then
    ⟨directory.bytes ++ name.bytes⟩
  else ⟨directory.bytes ++ slash :: name.bytes⟩

end Path

inductive FileKind where
  | file
  | directory
  | other
deriving DecidableEq

structure Files where
  /-- What a path leads to, none if the system does not say. -/
  kind? : Path → Option FileKind
  list : Path → Except ReadError (List Path)
  read : Path → Except ReadError (List UInt8)

namespace Files

def isFile (files : Files) (path : Path) : Bool := files.kind? path == some .file

def isDirectory (files : Files) (path : Path) : Bool := files.kind? path == some .directory

end Files

end ContractTwins
