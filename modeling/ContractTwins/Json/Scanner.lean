import ContractTwins.Json.Fault

/-!
Scanners: functions that read something off the front of a text. What a scanner returns carries
the proof that it took at least one character, so loops of scanners end.
-/
namespace ContractTwins.Json

structure Scanned (α : Type) (text : List Char) where
  value : α
  rest : List Char
  shorter : rest.length < text.length

abbrev Scanner (α : Type) := (text : List Char) → Except Fault (Scanned α text)

theorem le_of_shorter {rest text : List Char} (shorter : rest.length < text.length) :
    rest.length ≤ text.length :=
  Nat.le_of_lt shorter

theorem shorter_of_cons {c : Char} {rest text : List Char}
    (shorter : (c :: rest).length < text.length) : rest.length < text.length :=
  Nat.lt_of_succ_lt shorter

theorem tail_shorter (c : Char) (rest : List Char) : rest.length < (c :: rest).length :=
  Nat.lt_succ_self rest.length

theorem shorter_cons {rest text : List Char} (c : Char) (shorter : rest.length < text.length) :
    rest.length < (c :: text).length :=
  Nat.lt_succ_of_lt shorter

namespace Scanned

variable {α β : Type} {text : List Char}

def map (f : α → β) (scanned : Scanned α text) : Scanned β text :=
  ⟨f scanned.value, scanned.rest, scanned.shorter⟩

/-- What was read off a later part of a text was read off the text. -/
def within {later : List Char} (scanned : Scanned α later) (le : later.length ≤ text.length) :
    Scanned α text :=
  ⟨scanned.value, scanned.rest, Nat.lt_of_lt_of_le scanned.shorter le⟩

end Scanned

namespace Scanner

variable {α β : Type}

def map (f : α → β) (scan : Scanner α) : Scanner β :=
  fun text => (scan text).map (Scanned.map f)

def andThen (scan : Scanner α) (next : α → Scanner β) : Scanner β := fun text =>
  match scan text with
  | .error fault => .error fault
  | .ok ⟨a, rest, shorter⟩ =>
    match next a rest with
    | .error fault => .error fault
    | .ok scanned => .ok (scanned.within (le_of_shorter shorter))

end Scanner

def Reads {α : Type} (scan : Scanner α) (text : List Char) (value : α) (rest : List Char) : Prop :=
  ∃ shorter, scan text = .ok ⟨value, rest, shorter⟩

def isSpace (c : Char) : Bool :=
  c == ' ' || c == '\n' || c == '\t' || c == '\r'

def skipSpace (text : List Char) : List Char :=
  text.dropWhile isSpace

theorem length_dropWhile_le (p : Char → Bool) (text : List Char) :
    (text.dropWhile p).length ≤ text.length :=
  (List.dropWhile_sublist p).length_le

theorem length_skipSpace_le (text : List Char) : (skipSpace text).length ≤ text.length :=
  length_dropWhile_le isSpace text

theorem length_le_of_skipSpace {text rest : List Char} {c : Char}
    (eq : skipSpace text = c :: rest) : rest.length < text.length := by
  have := length_skipSpace_le text
  rw [eq, List.length_cons] at this
  omega

def letters (α : Type) (value : α) (text : List Char) :
    List Char → (rest : List Char) → rest.length < text.length → Except Fault (Scanned α text)
  | [], rest, shorter => .ok ⟨value, rest, shorter⟩
  | _ :: _, [], _ => .error (.before .endInValue [])
  | letter :: more, c :: rest, shorter =>
    if c = letter then
      letters α value text more rest (shorter_of_cons shorter)
    else .error (.at .expectedWord (c :: rest))

def colon : Scanner Unit := fun text =>
  match eq : skipSpace text with
  | [] => .error (.before .endInObject [])
  | ':' :: rest => .ok ⟨(), rest, length_le_of_skipSpace eq⟩
  | other => .error (.at .expectedColon other)

end ContractTwins.Json
