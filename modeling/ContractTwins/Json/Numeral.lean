import ContractTwins.Json.Scanner
import ContractTwins.Double.Scale

/-!
Reading numbers. A number without fraction and exponent that fits 64 bits is whole; any other is a
double. Its digits go into a significand of 64 bits as long as they fit, and the rest is a power
of ten.
-/
namespace ContractTwins.Json

def digitValue (c : Char) : Nat := c.toNat - 48

def takeDigits (limit value : Nat) : List Char → Nat × Nat
  | [] => (value, 0)
  | c :: rest =>
    let next := value * 10 + digitValue c
    if next < limit then
      let (total, taken) := takeDigits limit next rest
      (total, taken + 1)
    else (value, 0)

def significandLimit : Nat := Nat.pow 2 64
def exponentLimit : Nat := Nat.pow 2 31

/-- The number of a significand without sign, fraction and exponent. A zero with a minus is a
double, and so is a negative number below `-2^63`. -/
def wholeNumber (negative : Bool) (significand : Nat) : Number :=
  if negative then
    if 0 < significand ∧ significand ≤ Nat.pow 2 63 then .integer (-significand)
    else .float ⟨true, (Double.ofNat? significand).getD Double.zero⟩
  else .integer significand

def floatNumber? (negative : Bool) (significand : Nat) (exponent : Int) : Option Number :=
  let step := (Double.ofNat? significand).getD Double.zero
  (Double.scale? step exponent).map fun scaled => .float ⟨negative, scaled⟩

def isExponentMark (c : Char) : Bool := c == 'e' || c == 'E'

def exponentSign : List Char → Bool × List Char
  | '+' :: rest => (false, rest)
  | '-' :: rest => (true, rest)
  | rest => (false, rest)

theorem length_exponentSign_le (text : List Char) :
    (exponentSign text).2.length ≤ text.length := by
  rw [exponentSign.eq_def]
  split <;> simp

def finish {text : List Char} (negative : Bool) (significand : Nat) (exponent : Int)
    (rest : List Char) (shorter : rest.length < text.length) :
    Except Fault (Scanned Number text) :=
  match floatNumber? negative significand exponent with
  | some value => .ok ⟨value, rest, shorter⟩
  | none => .error (.before .numberTooLarge rest)

/-- The exponent after its mark. One of more than 31 bits makes the number zero or too large. -/
def exponentPart {text : List Char} (negative : Bool) (significand : Nat) (shift : Int)
    (marked : List Char) (shorter : marked.length < text.length) :
    Except Fault (Scanned Number text) :=
  match signed : exponentSign marked with
  | (_, []) => .error (.before .endInValue [])
  | (down, c :: more) =>
    if c.isDigit then
      let digits := (c :: more).takeWhile Char.isDigit
      let rest := (c :: more).dropWhile Char.isDigit
      have restShorter : rest.length < text.length := by
        have le := length_exponentSign_le marked
        rw [signed] at le
        exact Nat.lt_of_le_of_lt (Nat.le_trans (length_dropWhile_le _ _) le) shorter
      let (exponent, taken) := takeDigits exponentLimit 0 digits
      if taken = digits.length then
        finish negative significand (if down then shift - exponent else shift + exponent) rest
          restShorter
      else if significand ≠ 0 ∧ !down then
        .error (.before .numberTooLarge ((c :: more).drop (taken + 1)))
      else .ok ⟨.float ⟨negative, Double.zero⟩, rest, restShorter⟩
    else .error (.at .badNumber (c :: more))

def fractionPart {text : List Char} (negative : Bool) (significand : Nat) (dropped : Nat)
    (pointed : List Char) (shorter : pointed.length < text.length) :
    Except Fault (Scanned Number text) :=
  let digits := pointed.takeWhile Char.isDigit
  let rest := pointed.dropWhile Char.isDigit
  have restShorter : rest.length < text.length :=
    Nat.lt_of_le_of_lt (length_dropWhile_le _ _) shorter
  if digits.isEmpty then
    match rest with
    | [] => .error (.before .endInValue [])
    | other => .error (.at .badNumber other)
  else
    let (longer, taken) := takeDigits significandLimit significand digits
    let shift : Int := (dropped : Int) - taken
    match rest with
    | c :: more =>
      if isExponentMark c then
        exponentPart negative longer shift more (shorter_of_cons restShorter)
      else finish negative longer shift (c :: more) restShorter
    | [] => finish negative longer shift [] restShorter

def unsignedNumber (negative : Bool) : Scanner Number := fun text =>
  match text with
  | [] => .error (.before .endInValue [])
  | c :: more =>
    if starts : c.isDigit then
      let digits := (c :: more).takeWhile Char.isDigit
      let rest := (c :: more).dropWhile Char.isDigit
      have restShorter : rest.length < (c :: more).length := by
        have le := length_dropWhile_le Char.isDigit more
        simp only [rest, List.dropWhile_cons, starts, if_true, List.length_cons]
        omega
      if c = '0' ∧ 1 < digits.length then .error (.at .badNumber more)
      else
        let (significand, taken) := takeDigits significandLimit 0 digits
        let dropped := digits.length - taken
        match rest with
        | [] =>
          if dropped = 0 then .ok ⟨wholeNumber negative significand, [], restShorter⟩
          else finish negative significand dropped [] restShorter
        | next :: after =>
          if next = '.' then
            fractionPart negative significand dropped after (shorter_of_cons restShorter)
          else if isExponentMark next then
            exponentPart negative significand dropped after (shorter_of_cons restShorter)
          else if dropped = 0 then
            .ok ⟨wholeNumber negative significand, next :: after, restShorter⟩
          else finish negative significand dropped (next :: after) restShorter
    else .error (.at .badNumber (c :: more))

end ContractTwins.Json
