import ContractTwins.Json.Skipped

/-!
Forms: values of a known type that are read from a text or from a JSON value. A record is read from
an object, whose unknown members are passed over, or from a list of its fields in order.
-/
namespace ContractTwins.Json

structure Form (α : Type) where
  scan : Scanner α
  ofJson : Json → Except Mismatch α

/-- The fault of a value that is not what was expected. A scalar is read first. -/
def unexpected (expected : String) (text : List Char) : Fault :=
  match skipSpace text with
  | '[' :: rest => .before (.unfit (.wrongType .list expected)) ('[' :: rest)
  | '\x7b' :: rest => .before (.unfit (.wrongType .object expected)) ('\x7b' :: rest)
  | start =>
    match value 0 start with
    | .error fault => fault
    | .ok ⟨scalar, rest, _⟩ => .before (.unfit (.wrongType scalar.found expected)) rest

namespace Form

variable {α β : Type}

def read (form : Form α) (text : String) : Except Fault α := readWith form.scan text

def string : Form String where
  scan := fun text =>
    match eq : skipSpace text with
    | '"' :: rest =>
      (quotedTail rest).map fun scanned =>
        scanned.within (Nat.le_of_lt (length_le_of_skipSpace eq))
    | _ => .error (unexpected "a string" text)
  ofJson
    | .text value => .ok value
    | other => .error (.wrongType other.found "a string")

def optional (form : Form α) : Form (Option α) where
  scan := fun text =>
    match eq : skipSpace text with
    | 'n' :: rest =>
      letters (Option α) none text "ull".toList rest (length_le_of_skipSpace eq)
    | _ => (form.scan text).map (Scanned.map some)
  ofJson
    | .null => .ok none
    | other => (form.ofJson other).map some

def nothing : Scanner Unit := fun text =>
  match eq : skipSpace text with
  | [] => .error (.before .endInValue [])
  | 'n' :: rest => letters Unit () text "ull".toList rest (length_le_of_skipSpace eq)
  | _ => .error (unexpected "unit" text)

def named (choices : List (String × α)) : Scanner α := fun text =>
  match quotedTail text with
  | .error fault => .error fault
  | .ok ⟨name, rest, shorter⟩ =>
    match choices.lookup name with
    | some value => .ok ⟨value, rest, shorter⟩
    | none => .error (.before (.unfit (.unknownChoice name (choices.map Prod.fst))) rest)

def closeChoice : Scanner Unit := fun text =>
  match eq : skipSpace text with
  | [] => .error (.before .endInObject [])
  | c :: rest =>
    if c = '\x7d' then .ok ⟨(), rest, length_le_of_skipSpace eq⟩
    else .error (.before .expectedValue (c :: rest))

def keyed (choices : List (String × α)) : Scanner α := fun text =>
  match eq : skipSpace text with
  | [] => .error (.before .endInObject [])
  | '"' :: rest =>
    let whole : Scanner α := (named choices).andThen fun chosen =>
      colon.andThen fun _ => nothing.andThen fun _ => closeChoice.map fun _ => chosen
    (whole rest).map fun scanned => scanned.within (Nat.le_of_lt (length_le_of_skipSpace eq))
  | '\x7d' :: rest => .error (.at .expectedValue ('\x7d' :: rest))
  | other => .error (.at .keyNotText other)

/-- One of some values by name: a text, or an object with the name as its only key and nothing
under it. -/
def choice (choices : List (String × α)) : Form α where
  scan := fun text =>
    match eq : skipSpace text with
    | [] => .error (.before .endInValue [])
    | '"' :: rest =>
      (named choices rest).map fun scanned =>
        scanned.within (Nat.le_of_lt (length_le_of_skipSpace eq))
    | '\x7b' :: rest =>
      (keyed choices rest).map fun scanned =>
        scanned.within (Nat.le_of_lt (length_le_of_skipSpace eq))
    | other => .error (.at .expectedValue other)
  ofJson
    | .text name =>
      match choices.lookup name with
      | some value => .ok value
      | none => .error (.unknownChoice name (choices.map Prod.fst))
    | .object [(name, content)] =>
      match choices.lookup name, content with
      | none, _ => .error (.unknownChoice name (choices.map Prod.fst))
      | some value, .null => .ok value
      | some _, other => .error (.wrongType other.found "unit")
    | .object _ => .error .notOneKey
    | other => .error (.wrongType other.found "string or map")

end Form

structure Slot (α : Type) where
  name : String
  required : Bool
  scan : α → Scanner α
  ofJson : α → Json → Except Mismatch α

namespace Slot

variable {α β : Type}

def of (name : String) (required : Bool) (form : Form β) (set : β → α → α) : Slot α where
  name := name
  required := required
  scan := fun partly => form.scan.map fun value => set value partly
  ofJson := fun partly json => (form.ofJson json).map fun value => set value partly

end Slot

namespace Form

variable {α : Type}

def missing? (slots : List (Slot α)) (seen : List String) : Option String :=
  (slots.find? fun slot => slot.required && !seen.contains slot.name).map Slot.name

def pastClose (text : List Char) : List Char :=
  match skipSpace text with
  | '\x7d' :: rest => rest
  | other => other

def slotMember (slots : List (Slot α)) (name : String) (state : α × List String) :
    Scanner (α × List String) := fun text =>
  match slots.find? fun slot => slot.name == name with
  | none => (colon.andThen fun _ => skip.map fun _ => state) text
  | some slot =>
    if state.2.contains name then
      .error (.before (.unfit (.repeatedField name)) (pastClose text))
    else
      (colon.andThen fun _ => (slot.scan state.1).map fun filled => (filled, name :: state.2)) text

def slotMembers (slots : List (Slot α)) (blank : α) : Scanner α := fun text =>
  match members (slotMember slots) true (blank, []) text with
  | .error fault => .error fault
  | .ok ⟨(filled, seen), rest, shorter⟩ =>
    match missing? slots seen with
    | some name => .error (.before (.unfit (.missingField name)) rest)
    | none => .ok ⟨filled, rest, shorter⟩

def expecting (name : String) : String := "struct " ++ name

def expectingFields (name : String) (count : Nat) : String :=
  expecting name ++ " with " ++ toString count ++ " elements"

def slotItems (short : Nat → Mismatch) :
    List (Slot α) → (place : Nat) → (first : Bool) → α → Scanner α
  | [], _, _, partly => closeList.map fun _ => partly
  | slot :: more, place, first, partly => fun text =>
    match nextItem? first text with
    | .error fault => .error fault
    | .ok none =>
      if slot.required then
        match closeList text with
        | .error fault => .error fault
        | .ok ⟨_, rest, _⟩ => .error (.before (.unfit (short place)) rest)
      else slotItems short more (place + 1) first partly text
    | .ok (some ⟨start, le⟩) =>
      match slot.scan partly start with
      | .error fault => .error fault
      | .ok ⟨filled, rest, shorter⟩ =>
        match slotItems short more (place + 1) false filled rest with
        | .error fault => .error fault
        | .ok scanned => .ok (scanned.within (Nat.le_trans (Nat.le_of_lt shorter) le))

def fillMembers (slots : List (Slot α)) (partly : α) (members : List (String × Json)) :
    Except Mismatch α :=
  members.foldlM (fun partly member =>
    match slots.find? fun slot => slot.name == member.1 with
    | none => .ok partly
    | some slot => slot.ofJson partly member.2) partly

def fillItems (short : Nat → Mismatch) :
    List (Slot α) → (place : Nat) → α → List Json → Except Mismatch (α × Nat)
  | [], _, partly, items => .ok (partly, items.length)
  | slot :: more, place, partly, [] =>
    if slot.required then .error (short place) else fillItems short more (place + 1) partly []
  | slot :: more, place, partly, item :: items =>
    match slot.ofJson partly item with
    | .error mismatch => .error mismatch
    | .ok filled => fillItems short more (place + 1) filled items

/-- A record: an object with its fields, or a list of them in order. `blank` is the record before
any field is read. -/
def record (name : String) (slots : List (Slot α)) (blank : α) : Form α :=
  let short (place : Nat) : Mismatch := .wrongLength place (expectingFields name slots.length)
  { scan := fun text =>
      match eq : skipSpace text with
      | [] => .error (.before .endInValue [])
      | '[' :: rest =>
        (slotItems short slots 0 true blank rest).map fun scanned =>
          scanned.within (Nat.le_of_lt (length_le_of_skipSpace eq))
      | '\x7b' :: rest =>
        (slotMembers slots blank rest).map fun scanned =>
          scanned.within (Nat.le_of_lt (length_le_of_skipSpace eq))
      | _ => .error (unexpected (expecting name) text)
    ofJson := fun json =>
      match json with
      | .object written =>
        match fillMembers slots blank written with
        | .error mismatch => .error mismatch
        | .ok filled =>
          match missing? slots (written.map Prod.fst) with
          | some field => .error (.missingField field)
          | none => .ok filled
      | .list items =>
        match fillItems short slots 0 blank items with
        | .error mismatch => .error mismatch
        | .ok (filled, 0) => .ok filled
        | .ok (_, _ + 1) => .error (.wrongLength items.length "fewer elements in array")
      | other => .error (.wrongType other.found (expecting name)) }

end Form

end ContractTwins.Json
