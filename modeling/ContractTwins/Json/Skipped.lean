import ContractTwins.Json.Reader

/-!
Passing over a value that nobody asked for. Only its syntax is checked: nesting has no limit,
numbers have no range and surrogates need no partner.
-/
namespace ContractTwins.Json

inductive Bracket where
  | list
  | object
  deriving DecidableEq

def Bracket.close : Bracket → Char
  | .list => ']'
  | .object => '\x7d'

def Bracket.cut : Bracket → Cause
  | .list => .endInList
  | .object => .endInObject

def Bracket.unclosed : Bracket → Cause
  | .list => .expectedListEnd
  | .object => .expectedObjectEnd

def skipEscape : Scanner Unit := fun text =>
  match text with
  | [] => .error (.before .endInText [])
  | letter :: later =>
    if letter = 'u' then
      match fourHex later with
      | .error fault => .error fault
      | .ok ⟨_, rest, shorter⟩ => .ok ⟨(), rest, shorter_cons letter shorter⟩
    else if (shortEscape? letter).isSome then .ok ⟨(), later, tail_shorter letter later⟩
    else .error (.at .badEscape (letter :: later))

def skipQuoted : (text : List Char) → Except Fault (Scanned Unit text)
  | [] => .error (.before .endInText [])
  | c :: rest =>
    if c = '"' then .ok ⟨(), rest, tail_shorter c rest⟩
    else if c = '\\' then
      match skipEscape rest with
      | .error fault => .error fault
      | .ok ⟨_, later, shorter⟩ =>
        match skipQuoted later with
        | .error fault => .error fault
        | .ok ⟨_, last, shorterLast⟩ =>
          .ok ⟨(), last, shorter_cons c (Nat.lt_trans shorterLast shorter)⟩
    else if c.toNat < 0x20 then .error (.before .controlCharacter (c :: rest))
    else
      match skipQuoted rest with
      | .error fault => .error fault
      | .ok ⟨_, last, shorterLast⟩ => .ok ⟨(), last, shorter_cons c shorterLast⟩
termination_by text => text.length
decreasing_by
  · exact shorter_cons c shorter
  · exact tail_shorter c rest

def skipDigits (text : List Char) :
    Except Fault { rest : List Char // rest.length < text.length } :=
  match text with
  | [] => .error (.at .badNumber [])
  | c :: more =>
    if c.isDigit then
      .ok ⟨more.dropWhile Char.isDigit,
        Nat.lt_succ_of_le (length_dropWhile_le Char.isDigit more)⟩
    else .error (.at .badNumber (c :: more))

def skipExponent (text : List Char) :
    Except Fault { rest : List Char // rest.length ≤ text.length } :=
  match text with
  | [] => .ok ⟨[], Nat.le_refl _⟩
  | c :: more =>
    if isExponentMark c then do
      let ⟨rest, shorter⟩ ← skipDigits (exponentSign more).2
      pure ⟨rest, by have := length_exponentSign_le more; simp only [List.length_cons]; omega⟩
    else .ok ⟨c :: more, Nat.le_refl _⟩

def skipFraction (text : List Char) :
    Except Fault { rest : List Char // rest.length ≤ text.length } :=
  match text with
  | '.' :: more => do
    let ⟨digitsEnd, shorter⟩ ← skipDigits more
    let ⟨rest, le⟩ ← skipExponent digitsEnd
    pure ⟨rest, by simp only [List.length_cons]; omega⟩
  | other => skipExponent other

def skipNumber : Scanner Unit := fun text =>
  match text with
  | [] => .error (.at .badNumber [])
  | c :: more =>
    if c.isDigit then
      if c = '0' then
        match more with
        | [] => .ok ⟨(), [], by simp⟩
        | next :: after =>
          if next.isDigit then .error (.at .badNumber (next :: after))
          else
            match skipFraction (next :: after) with
            | .error fault => .error fault
            | .ok ⟨rest, le⟩ => .ok ⟨(), rest, Nat.lt_succ_of_le le⟩
      else
        match skipFraction (more.dropWhile Char.isDigit) with
        | .error fault => .error fault
        | .ok ⟨rest, le⟩ =>
          .ok ⟨(), rest, Nat.lt_succ_of_le
            (Nat.le_trans le (length_dropWhile_le Char.isDigit more))⟩
    else .error (.at .badNumber (c :: more))

def skipScalar : Scanner Unit := fun text =>
  match text with
  | [] => .error (.before .endInValue [])
  | c :: rest =>
    have shorter : rest.length < (c :: rest).length := Nat.lt_succ_self _
    if c = 'n' then letters Unit () (c :: rest) "ull".toList rest shorter
    else if c = 't' then letters Unit () (c :: rest) "rue".toList rest shorter
    else if c = 'f' then letters Unit () (c :: rest) "alse".toList rest shorter
    else if c = '-' then (skipNumber rest).map fun scanned => scanned.within (Nat.le_of_lt shorter)
    else if c.isDigit then skipNumber (c :: rest)
    else if c = '"' then (skipQuoted rest).map fun scanned => scanned.within (Nat.le_of_lt shorter)
    else .error (.at .expectedValue (c :: rest))

def skipKey (bracket : Bracket) (text : List Char) :
    Except Fault { rest : List Char // rest.length ≤ text.length } :=
  match bracket with
  | .list => .ok ⟨text, Nat.le_refl _⟩
  | .object =>
    match eq : skipSpace text with
    | [] => .error (.before .endInObject [])
    | '"' :: name => do
      let ⟨_, named, shorterName⟩ ← skipQuoted name
      let ⟨_, rest, shorter⟩ ← colon named
      pure ⟨rest, by have := length_le_of_skipSpace eq; omega⟩
    | other => .error (.at .keyNotText other)

mutual

/-- A value inside some open brackets, and all that follows it up to the last of them. -/
def skipWithin (stack : List Bracket) (text : List Char) : Except Fault (Scanned Unit text) :=
  match eq : skipSpace text with
  | [] => .error (.before .endInValue [])
  | c :: rest =>
    have shorter := length_le_of_skipSpace eq
    let bracket? : Option Bracket :=
      if c = '[' then some .list else if c = '\x7b' then some .object else none
    match bracket? with
    | none =>
      match skipScalar (c :: rest) with
      | .error fault => .error fault
      | .ok ⟨_, later, shorterLater⟩ =>
        have laterShorter : later.length < text.length := Nat.lt_of_lt_of_le shorterLater shorter
        skipAfter stack text later laterShorter
    | some bracket =>
      match eqInner : skipSpace rest with
      | [] => .error (.before bracket.cut [])
      | next :: later =>
        have shorterInner := length_le_of_skipSpace eqInner
        if next = bracket.close then skipAfter stack text later (Nat.lt_trans shorterInner shorter)
        else
          match skipKey bracket (next :: later) with
          | .error fault => .error fault
          | .ok ⟨start, le⟩ =>
            have startShorter : start.length < text.length := by
              rw [List.length_cons] at le
              omega
            match skipWithin (bracket :: stack) start with
            | .error fault => .error fault
            | .ok scanned => .ok (scanned.within (Nat.le_of_lt startShorter))
termination_by (text.length, 0)

/-- What follows a value: the end of it all, a comma and the next value, or a closing bracket. -/
def skipAfter (stack : List Bracket) (text rest : List Char) (shorter : rest.length < text.length) :
    Except Fault (Scanned Unit text) :=
  match stack with
  | [] => .ok ⟨(), rest, shorter⟩
  | bracket :: outer =>
    match eq : skipSpace rest with
    | [] => .error (.before bracket.cut [])
    | c :: more =>
      have shorterMore := length_le_of_skipSpace eq
      if c = ',' then
        match skipKey bracket more with
        | .error fault => .error fault
        | .ok ⟨start, le⟩ =>
          match skipWithin (bracket :: outer) start with
          | .error fault => .error fault
          | .ok scanned => .ok (scanned.within (by omega))
      else if c = bracket.close then skipAfter outer text more (by omega)
      else .error (.at bracket.unclosed (c :: more))
termination_by (rest.length, 1)

end

def skip : Scanner Unit := skipWithin []

end ContractTwins.Json
