import ContractTwins.Json.Scanner

namespace ContractTwins.Json

def hexValue? (c : Char) : Option Nat :=
  if '0' ≤ c ∧ c ≤ '9' then some (c.toNat - 48)
  else if 'a' ≤ c ∧ c ≤ 'f' then some (c.toNat - 87)
  else if 'A' ≤ c ∧ c ≤ 'F' then some (c.toNat - 55)
  else none

def hexFault (text : List Char) : Fault :=
  if byteCount text < 4 then ⟨.endInText, 0⟩ else ⟨.badEscape, byteCount text - 4⟩

def fourHex : Scanner Nat := fun text =>
  match text with
  | a :: b :: c :: d :: rest =>
    match hexValue? a, hexValue? b, hexValue? c, hexValue? d with
    | some i, some j, some k, some l =>
      .ok ⟨((i * 16 + j) * 16 + k) * 16 + l, rest, by simp only [List.length_cons]; omega⟩
    | _, _, _, _ => .error (hexFault (a :: b :: c :: d :: rest))
  | short => .error (hexFault short)

def isLeading (n : Nat) : Bool := 0xD800 ≤ n && n ≤ 0xDBFF
def isTrailing (n : Nat) : Bool := 0xDC00 ≤ n && n ≤ 0xDFFF

def pairChar (leading trailing : Nat) : Char :=
  Char.ofNat (0x10000 + (leading - 0xD800) * 0x400 + (trailing - 0xDC00))

def trailingEscape (leading : Nat) : Scanner Char := fun text =>
  match text with
  | [] => .error (.before .endInText [])
  | '\\' :: [] => .error (.before .endInText [])
  | '\\' :: 'u' :: later =>
    match fourHex later with
    | .error fault => .error fault
    | .ok ⟨trailing, rest, shorter⟩ =>
      if isTrailing trailing then
        .ok ⟨pairChar leading trailing, rest, by simp only [List.length_cons]; omega⟩
      else .error (.before .loneSurrogate rest)
  | '\\' :: other => .error (.at .escapeCutOff other)
  | other => .error (.at .escapeCutOff other)

/-- The number after a backslash and a `u`, and that of a second escape where the first one is a
leading surrogate. -/
def unicodeEscape : Scanner Char := fun text =>
  match fourHex text with
  | .error fault => .error fault
  | .ok ⟨n, rest, shorter⟩ =>
    if isTrailing n then .error (.before .loneSurrogate rest)
    else if isLeading n then
      match trailingEscape n rest with
      | .error fault => .error fault
      | .ok scanned => .ok (scanned.within (le_of_shorter shorter))
    else .ok ⟨Char.ofNat n, rest, shorter⟩

def shortEscape? (c : Char) : Option Char :=
  if c = '"' then some '"'
  else if c = '\\' then some '\\'
  else if c = '/' then some '/'
  else if c = 'b' then some '\x08'
  else if c = 'f' then some '\x0c'
  else if c = 'n' then some '\n'
  else if c = 'r' then some '\r'
  else if c = 't' then some '\t'
  else none

def escapeTail : Scanner Char := fun text =>
  match text with
  | [] => .error (.before .endInText [])
  | c :: rest =>
    if c = 'u' then
      match unicodeEscape rest with
      | .error fault => .error fault
      | .ok scanned => .ok (scanned.within (by simp only [List.length_cons]; omega))
    else
      match shortEscape? c with
      | some plain => .ok ⟨plain, rest, by simp only [List.length_cons]; omega⟩
      | none => .error (.at .badEscape (c :: rest))

def quotedChars : (text : List Char) → Except Fault (Scanned (List Char) text)
  | [] => .error (.before .endInText [])
  | c :: rest =>
    if c = '"' then .ok ⟨[], rest, by simp only [List.length_cons]; omega⟩
    else if c = '\\' then
      match escapeTail rest with
      | .error fault => .error fault
      | .ok ⟨plain, later, shorter⟩ =>
        match quotedChars later with
        | .error fault => .error fault
        | .ok ⟨chars, last, shorterLast⟩ =>
          .ok ⟨plain :: chars, last, by simp only [List.length_cons]; omega⟩
    else if c.toNat < 0x20 then .error (.at .controlCharacter (c :: rest))
    else
      match quotedChars rest with
      | .error fault => .error fault
      | .ok ⟨chars, last, shorterLast⟩ =>
        .ok ⟨c :: chars, last, by simp only [List.length_cons]; omega⟩
termination_by text => text.length
decreasing_by all_goals (simp only [List.length_cons]; omega)

def quotedTail : Scanner String :=
  Scanner.map String.ofList quotedChars

theorem hexValue?_hexDigit : ∀ n < 16, hexValue? (hexDigit n) = some n := by decide

theorem reads_shortEscape {c plain : Char} (eq : shortEscape? c = some plain) (rest : List Char) :
    Reads escapeTail (c :: rest) plain rest := by
  have ne : c ≠ 'u' := by rintro rfl; simp [shortEscape?] at eq
  exact ⟨by simp, by simp [escapeTail, ne, eq]⟩

theorem reads_escaped {plain : Char} {tail later chars rest : List Char}
    (head : Reads escapeTail tail plain later) (read : Reads quotedChars later chars rest) :
    Reads quotedChars ('\\' :: tail) (plain :: chars) rest := by
  obtain ⟨_, eqHead⟩ := head
  obtain ⟨_, eqRead⟩ := read
  refine ⟨by simp only [List.length_cons]; omega, ?_⟩
  rw [quotedChars]
  simp [eqHead, eqRead]

theorem reads_plain {c : Char} {tail chars rest : List Char} (h1 : c ≠ '"') (h2 : c ≠ '\\')
    (h3 : ¬ c.toNat < 0x20) (read : Reads quotedChars tail chars rest) :
    Reads quotedChars (c :: tail) (c :: chars) rest := by
  obtain ⟨_, eqRead⟩ := read
  refine ⟨by simp only [List.length_cons]; omega, ?_⟩
  rw [quotedChars]
  simp [h1, h2, h3, eqRead]

theorem reads_controlEscape {c : Char} (low : c.toNat < 0x20) (rest : List Char) :
    Reads escapeTail
      ('u' :: '0' :: '0' :: hexDigit (c.toNat / 16) :: hexDigit (c.toNat % 16) :: rest) c rest := by
  refine ⟨by simp only [List.length_cons]; omega, ?_⟩
  have whole : ((0 * 16 + 0) * 16 + c.toNat / 16) * 16 + c.toNat % 16 = c.toNat := by omega
  have zero : hexValue? '0' = some 0 := by decide
  have h1 := hexValue?_hexDigit (c.toNat / 16) (by omega)
  have h2 := hexValue?_hexDigit (c.toNat % 16) (by omega)
  have nt : isTrailing c.toNat = false := by simp [isTrailing]; omega
  have nl : isLeading c.toNat = false := by simp [isLeading]; omega
  simp only [escapeTail, unicodeEscape, fourHex, h1, h2, zero, whole, nt, nl]
  simp [Scanned.within]

/-- What was escaped is read back, up to the quote that closes it. -/
theorem reads_quotedChars (text rest : List Char) :
    Reads quotedChars (text.flatMap escape ++ '"' :: rest) text rest := by
  induction text with
  | nil =>
    show Reads quotedChars ('"' :: rest) [] rest
    exact ⟨Nat.lt_succ_self _, by simp [quotedChars]⟩
  | cons c text ih =>
    rw [List.flatMap_cons, List.append_assoc]
    rw [escape]
    split
    · subst c
      exact reads_escaped (reads_shortEscape (by decide) _) ih
    split
    · subst c
      exact reads_escaped (reads_shortEscape (by decide) _) ih
    split
    · subst c
      exact reads_escaped (reads_shortEscape (by decide) _) ih
    split
    · subst c
      exact reads_escaped (reads_shortEscape (by decide) _) ih
    split
    · subst c
      exact reads_escaped (reads_shortEscape (by decide) _) ih
    split
    · subst c
      exact reads_escaped (reads_shortEscape (by decide) _) ih
    split
    · subst c
      exact reads_escaped (reads_shortEscape (by decide) _) ih
    split
    · rename_i low
      exact reads_escaped (reads_controlEscape low _) ih
    · exact reads_plain (by assumption) (by assumption) (by assumption) ih

end ContractTwins.Json
