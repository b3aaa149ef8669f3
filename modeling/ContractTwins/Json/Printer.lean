import ContractTwins.Json.Basic
import ContractTwins.Double.Shortest

/-!
JSON text: the compact form without white space, and the pretty form with two blanks for each
level. Members are written in the order in which the object lists them.
-/
namespace ContractTwins.Json

def hexDigit (n : Nat) : Char := Nat.digitChar n

def escape (c : Char) : List Char :=
  if c = '"' then ['\\', '"']
  else if c = '\\' then ['\\', '\\']
  else if c = '\x08' then ['\\', 'b']
  else if c = '\t' then ['\\', 't']
  else if c = '\n' then ['\\', 'n']
  else if c = '\x0c' then ['\\', 'f']
  else if c = '\r' then ['\\', 'r']
  else if c.toNat < 0x20 then
    ['\\', 'u', '0', '0', hexDigit (c.toNat / 16), hexDigit (c.toNat % 16)]
  else [c]

def quoted (text : String) : List Char :=
  '"' :: (text.toList.flatMap escape ++ ['"'])

def integerText (n : Int) : List Char :=
  (if n < 0 then ['-'] else []) ++ Nat.toDigits 10 n.natAbs

def numberText : Number → List Char
  | .integer n => integerText n
  | .float x => x.text

def boolText (value : Bool) : List Char :=
  (if value then "true" else "false").toList

mutual

def compact : Json → List Char
  | .null => "null".toList
  | .bool value => boolText value
  | .number value => numberText value
  | .text value => quoted value
  | .list items => '[' :: (compactItems items ++ [']'])
  | .object members => '\x7b' :: (compactMembers members ++ ['\x7d'])

def compactItems : List Json → List Char
  | [] => []
  | [item] => compact item
  | item :: rest => compact item ++ ',' :: compactItems rest

def compactMembers : List (String × Json) → List Char
  | [] => []
  | [(key, value)] => quoted key ++ ':' :: compact value
  | (key, value) :: rest => quoted key ++ ':' :: (compact value ++ ',' :: compactMembers rest)

end

def render (value : Json) : String :=
  String.ofList (compact value)

def newLine (level : Nat) : List Char :=
  '\n' :: List.replicate (2 * level) ' '

mutual

def pretty (level : Nat) : Json → List Char
  | .list [] => ['[', ']']
  | .list (item :: rest) => '[' :: (prettyItems level (item :: rest) ++ newLine level ++ [']'])
  | .object [] => ['\x7b', '\x7d']
  | .object (member :: rest) =>
    '\x7b' :: (prettyMembers level (member :: rest) ++ newLine level ++ ['\x7d'])
  | .null => "null".toList
  | .bool value => boolText value
  | .number value => numberText value
  | .text value => quoted value

def prettyItems (level : Nat) : List Json → List Char
  | [] => []
  | [item] => newLine (level + 1) ++ pretty (level + 1) item
  | item :: rest => newLine (level + 1) ++ pretty (level + 1) item ++ ',' :: prettyItems level rest

def prettyMembers (level : Nat) : List (String × Json) → List Char
  | [] => []
  | [(key, value)] => newLine (level + 1) ++ quoted key ++ ": ".toList ++ pretty (level + 1) value
  | (key, value) :: rest =>
    newLine (level + 1) ++ quoted key ++ ": ".toList ++ pretty (level + 1) value ++
      ',' :: prettyMembers level rest

end

def renderPretty (value : Json) : String :=
  String.ofList (pretty 0 value)

end ContractTwins.Json
