import ContractTwins.Json.Printer
import ContractTwins.Text.Quoted

/-!
What can be wrong with JSON. A `Mismatch` is a value of another form than the expected one; a
`Cause` is a mismatch or a break of the syntax; a `Fault` is a cause with its place in the text.
The wording is here and nowhere else.
-/
namespace ContractTwins.Json

inductive Found where
  | null
  | bool (value : Bool)
  | number (value : Number)
  | text (value : String)
  | list
  | object

def Found.words : Found → String
  | .null => "null"
  | .bool value => "boolean `" ++ String.ofList (boolText value) ++ "`"
  | .number (.integer n) => "integer `" ++ String.ofList (integerText n) ++ "`"
  | .number (.float x) => "floating point `" ++ String.ofList x.text ++ "`"
  | .text value => "string " ++ Text.quote value
  | .list => "sequence"
  | .object => "map"

def found : Json → Found
  | .null => .null
  | .bool value => .bool value
  | .number value => .number value
  | .text value => .text value
  | .list _ => .list
  | .object _ => .object

inductive Mismatch where
  | wrongType (found : Found) (expected : String)
  | wrongLength (length : Nat) (expected : String)
  | notOneKey
  | missingField (field : String)
  | repeatedField (field : String)
  | unknownChoice (name : String) (choices : List String)

def alternatives : List String → String
  | [] => "nothing"
  | [only] => "`" ++ only ++ "`"
  | [first, second] => "`" ++ first ++ "` or `" ++ second ++ "`"
  | names => "one of " ++ ", ".intercalate (names.map fun name => "`" ++ name ++ "`")

def Mismatch.message : Mismatch → String
  | .wrongType found expected => "invalid type: " ++ found.words ++ ", expected " ++ expected
  | .wrongLength length expected =>
    "invalid length " ++ toString length ++ ", expected " ++ expected
  | .notOneKey => "invalid value: map, expected map with a single key"
  | .missingField field => "missing field `" ++ field ++ "`"
  | .repeatedField field => "duplicate field `" ++ field ++ "`"
  | .unknownChoice name choices =>
    "unknown variant `" ++ name ++ "`, expected " ++ alternatives choices

inductive Cause where
  | unfit (mismatch : Mismatch)
  | endInValue
  | endInList
  | endInObject
  | endInText
  | expectedValue
  | expectedColon
  | expectedListEnd
  | expectedObjectEnd
  | expectedWord
  | keyNotText
  | trailingComma
  | trailingCharacters
  | tooDeep
  | badNumber
  | numberTooLarge
  | controlCharacter
  | badEscape
  | loneSurrogate
  | escapeCutOff

def Cause.message : Cause → String
  | .unfit mismatch => mismatch.message
  | .endInValue => "EOF while parsing a value"
  | .endInList => "EOF while parsing a list"
  | .endInObject => "EOF while parsing an object"
  | .endInText => "EOF while parsing a string"
  | .expectedValue => "expected value"
  | .expectedColon => "expected `:`"
  | .expectedListEnd => "expected `,` or `]`"
  | .expectedObjectEnd => "expected `,` or `\x7d`"
  | .expectedWord => "expected ident"
  | .keyNotText => "key must be a string"
  | .trailingComma => "trailing comma"
  | .trailingCharacters => "trailing characters"
  | .tooDeep => "recursion limit exceeded"
  | .badNumber => "invalid number"
  | .numberTooLarge => "number out of range"
  | .controlCharacter =>
    "control character (\\u0000-\\u001F) found while parsing a string"
  | .badEscape => "invalid escape"
  | .loneSurrogate => "lone leading surrogate in hex escape"
  | .escapeCutOff => "unexpected end of hex escape"

/-- A cause, and how many bytes of the text were still to be read when it showed. -/
structure Fault where
  cause : Cause
  left : Nat

def byteCount (text : List Char) : Nat :=
  text.foldr (fun c count => c.utf8Size + count) 0

def Fault.before (cause : Cause) (rest : List Char) : Fault :=
  ⟨cause, byteCount rest⟩

/-- A fault that the next byte shows: it counts as read, if there is one. -/
def Fault.at (cause : Cause) (rest : List Char) : Fault :=
  ⟨cause, byteCount rest - 1⟩

/-- The line, from 1, and the column, in bytes, that are reached after some bytes of a text. -/
def position (line column : Nat) : List Char → Nat → Nat × Nat
  | [], _ => (line, column)
  | c :: rest, read =>
    if read < c.utf8Size then (line, column + read)
    else if c = '\n' then position (line + 1) 0 rest (read - 1)
    else position line (column + c.utf8Size) rest (read - c.utf8Size)

def Fault.message (text : String) (fault : Fault) : String :=
  let chars := text.toList
  let (line, column) := position 1 0 chars (byteCount chars - fault.left)
  fault.cause.message ++ " at line " ++ toString line ++ " column " ++ toString column

end ContractTwins.Json
