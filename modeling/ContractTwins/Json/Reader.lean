import ContractTwins.Json.Numeral
import ContractTwins.Json.Quoted

/-!
Reading JSON values. The pieces are shared by every reader: where the next item or key of a list
or object begins, and loops over items and members. `Json.read` is the reader of whole texts.
-/
namespace ContractTwins.Json

/-- Where the next item of a list begins, or none at its closing bracket, which is left in place.
Every item but the first follows a comma. -/
def nextItem? (first : Bool) (text : List Char) :
    Except Fault (Option { start : List Char // start.length ≤ text.length }) :=
  match eq : skipSpace text with
  | [] => .error (.before .endInList [])
  | ']' :: _ => .ok none
  | c :: rest =>
    have shorter := length_le_of_skipSpace eq
    if first then .ok (some ⟨c :: rest, shorter⟩)
    else if c = ',' then
      match skipSpace rest, length_skipSpace_le rest with
      | [], _ => .error (.before .endInValue [])
      | ']' :: more, _ => .error (.at .trailingComma (']' :: more))
      | start, le => .ok (some ⟨start, Nat.le_of_lt (Nat.lt_of_le_of_lt le shorter)⟩)
    else .error (.at .expectedListEnd (c :: rest))

def key : Scanner String := fun text =>
  match text with
  | '"' :: rest =>
    match quotedTail rest with
    | .error fault => .error fault
    | .ok scanned => .ok (scanned.within (by simp only [List.length_cons]; omega))
  | other => .error (.at .keyNotText other)

def nextKey? (first : Bool) (text : List Char) : Except Fault (Option (Scanned String text)) :=
  match eq : skipSpace text with
  | [] => .error (.before .endInObject [])
  | '\x7d' :: _ => .ok none
  | c :: rest =>
    have shorter := length_le_of_skipSpace eq
    if first then
      match key (c :: rest) with
      | .error fault => .error fault
      | .ok scanned => .ok (some (scanned.within shorter))
    else if c = ',' then
      match skipSpace rest, length_skipSpace_le rest with
      | [], _ => .error (.before .endInValue [])
      | '\x7d' :: more, _ => .error (.at .trailingComma ('\x7d' :: more))
      | start, le =>
        match key start with
        | .error fault => .error fault
        | .ok scanned =>
          .ok (some (scanned.within (Nat.le_of_lt (Nat.lt_of_le_of_lt le shorter))))
    else .error (.at .expectedObjectEnd (c :: rest))

def closeList : Scanner Unit := fun text =>
  match eq : skipSpace text with
  | [] => .error (.before .endInList [])
  | ']' :: rest => .ok ⟨(), rest, length_le_of_skipSpace eq⟩
  | ',' :: rest =>
    match skipSpace rest with
    | ']' :: more => .error (.at .trailingComma (']' :: more))
    | other => .error (.at .trailingCharacters other)
  | other => .error (.at .trailingCharacters other)

def closeObject : Scanner Unit := fun text =>
  match eq : skipSpace text with
  | [] => .error (.before .endInObject [])
  | '\x7d' :: rest => .ok ⟨(), rest, length_le_of_skipSpace eq⟩
  | ',' :: rest => .error (.at .trailingComma (',' :: rest))
  | other => .error (.at .trailingCharacters other)

def items {α : Type} (item : Scanner α) (first : Bool) (text : List Char) :
    Except Fault (Scanned (List α) text) :=
  match nextItem? first text with
  | .error fault => .error fault
  | .ok none => (closeList text).map (Scanned.map fun _ => [])
  | .ok (some ⟨start, le⟩) =>
    match item start with
    | .error fault => .error fault
    | .ok ⟨a, rest, shorter⟩ =>
      match items item false rest with
      | .error fault => .error fault
      | .ok ⟨more, last, shorterLast⟩ => .ok ⟨a :: more, last, by omega⟩
termination_by text.length

def members {σ : Type} (member : String → σ → Scanner σ) (first : Bool) (state : σ)
    (text : List Char) : Except Fault (Scanned σ text) :=
  match nextKey? first text with
  | .error fault => .error fault
  | .ok none => (closeObject text).map (Scanned.map fun _ => state)
  | .ok (some ⟨name, later, shorter⟩) =>
    match member name state later with
    | .error fault => .error fault
    | .ok ⟨next, rest, shorterRest⟩ =>
      match members member false next rest with
      | .error fault => .error fault
      | .ok ⟨final, last, shorterLast⟩ => .ok ⟨final, last, by omega⟩
termination_by text.length

def valueOf (listTail objectTail : Scanner Json) : Scanner Json := fun text =>
  match eq : skipSpace text with
  | [] => .error (.before .endInValue [])
  | c :: rest =>
    have shorter := length_le_of_skipSpace eq
    let after (scan : Scanner Json) : Except Fault (Scanned Json text) :=
      (scan rest).map fun scanned => scanned.within (le_of_shorter shorter)
    if c = 'n' then letters Json .null text "ull".toList rest shorter
    else if c = 't' then letters Json (.bool true) text "rue".toList rest shorter
    else if c = 'f' then letters Json (.bool false) text "alse".toList rest shorter
    else if c = '-' then after ((unsignedNumber true).map .number)
    else if c.isDigit then
      (unsignedNumber false (c :: rest)).map fun scanned =>
        (scanned.map .number).within shorter
    else if c = '"' then after (quotedTail.map .text)
    else if c = '[' then after listTail
    else if c = '\x7b' then after objectTail
    else .error (.at .expectedValue (c :: rest))

def tooDeep : Scanner Json := fun rest => .error (.before .tooDeep rest)

def memberInto (value : Scanner Json) (name : String) (written : List (String × Json)) :
    Scanner (List (String × Json)) :=
  colon.andThen fun _ => value.map fun v => SortedMap.insert name v written

/-- A value in which lists and objects nest no deeper than a limit. -/
def value : Nat → Scanner Json
  | 0 => valueOf tooDeep tooDeep
  | depth + 1 =>
    valueOf (Scanner.map .list (items (value depth) true))
      (Scanner.map .object (members (memberInto (value depth)) true []))

def depthLimit : Nat := 127

def ending (rest : List Char) : Except Fault Unit :=
  match skipSpace rest with
  | [] => .ok ()
  | other => .error (.at .trailingCharacters other)

def readWith {α : Type} (scan : Scanner α) (text : String) : Except Fault α :=
  match scan text.toList with
  | .error fault => .error fault
  | .ok ⟨a, rest, _⟩ => (ending rest).map fun _ => a

def read (text : String) : Except Fault Json :=
  readWith (value depthLimit) text

end ContractTwins.Json
