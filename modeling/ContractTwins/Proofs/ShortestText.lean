import ContractTwins.Double.Shortest
import Mathlib.Data.List.Basic
import Mathlib.Tactic.Ring

/-!
The texts of doubles. A decimal rounds to one step only, and the text gives the decimal back, so
different doubles have different texts. No text of a double is that of a whole number.
-/
namespace ContractTwins.Double

theorem binade_eq : binade = 2 ^ 52 := rfl

theorem units_eq (step : Nat) :
    units step =
      if step / binade = 0 then step else (binade + step % binade) * 2 ^ (step / binade - 1) :=
  rfl

theorem units_lt_succ (step : Nat) : units step < units (step + 1) := by
  have scale : 0 < 2 ^ (step / binade - 1) := Nat.two_pow_pos _
  by_cases last : step % binade + 1 = binade
  · have quotient : (step + 1) / binade = step / binade + 1 := by
      simp only [binade_eq] at *; omega
    have remainder : (step + 1) % binade = 0 := by
      simp only [binade_eq] at *; omega
    rw [units_eq, units_eq, quotient, remainder, if_neg (Nat.succ_ne_zero _), Nat.add_sub_cancel]
    split
    · rename_i first
      rw [first, pow_zero]
      have := Nat.div_add_mod step binade
      rw [first] at this
      omega
    · rename_i later
      have double : 2 ^ (step / binade) = 2 * 2 ^ (step / binade - 1) := by
        rw [← pow_succ', Nat.sub_add_cancel (Nat.pos_of_ne_zero later)]
      rw [double, Nat.add_zero, ← Nat.mul_assoc]
      exact Nat.mul_lt_mul_of_pos_right (by omega) scale
  · have quotient : (step + 1) / binade = step / binade := by
      simp only [binade_eq] at *; omega
    have remainder : (step + 1) % binade = step % binade + 1 := by
      simp only [binade_eq] at *; omega
    rw [units_eq, units_eq, quotient, remainder]
    split
    · exact Nat.lt_succ_self _
    · exact Nat.mul_lt_mul_of_pos_right (by omega) scale

theorem units_strictMono : StrictMono units := strictMono_nat_of_lt_succ units_lt_succ

theorem fine_pos : 0 < fine := by
  unfold fine
  generalize 1074 = exponent
  exact Nat.pow_pos (by decide)

theorem roundsTo_bounds {step point : Nat} (rounds : roundsTo step point) :
    (units (step - 1) + units step) * fine ≤ 2 * point ∧
      2 * point ≤ (units step + units (step + 1)) * fine ∧
      (step % 2 = 0 ∨ (units (step - 1) + units step) * fine < 2 * point ∧
        2 * point < (units step + units (step + 1)) * fine) := by
  rw [roundsTo] at rounds
  split at rounds
  · rename_i even
    simp only [Bool.and_eq_true, decide_eq_true_eq] at rounds
    exact ⟨rounds.1, rounds.2, Or.inl even⟩
  · simp only [Bool.and_eq_true, decide_eq_true_eq] at rounds
    exact ⟨by omega, by omega, Or.inr rounds⟩

theorem not_roundsTo_of_lt {s t point : Nat} (lower : s < t) (roundsS : roundsTo s point)
    (roundsT : roundsTo t point) : False := by
  obtain ⟨-, highS, endS⟩ := roundsTo_bounds roundsS
  obtain ⟨lowT, -, endT⟩ := roundsTo_bounds roundsT
  have next : units (s + 1) ≤ units t := units_strictMono.monotone lower
  have before : units s ≤ units (t - 1) := units_strictMono.monotone (by omega)
  have apart : (units s + units (s + 1)) * fine ≤ (units (t - 1) + units t) * fine :=
    Nat.mul_le_mul_right _ (by omega)
  by_cases neighbours : t = s + 1
  · -- Of two neighbours one is odd, and the range of that one has no ends.
    omega
  · have gap : units s < units (t - 1) := units_strictMono (by omega)
    have strict : (units s + units (s + 1)) * fine < (units (t - 1) + units t) * fine :=
      Nat.mul_lt_mul_of_pos_right (by omega) fine_pos
    omega

theorem roundsTo_unique {s t point : Nat} (roundsS : roundsTo s point)
    (roundsT : roundsTo t point) : s = t := by
  rcases Nat.lt_trichotomy s t with lower | same | higher
  · exact (not_roundsTo_of_lt lower roundsS roundsT).elim
  · exact same
  · exact (not_roundsTo_of_lt higher roundsT roundsS).elim

theorem roundsTo_self {step : Nat} (positive : 0 < step) : roundsTo step (units step * fine) := by
  have below : (units (step - 1) + units step) * fine < 2 * (units step * fine) := by
    have lower : units (step - 1) < units step := units_strictMono (by omega)
    have := Nat.mul_lt_mul_of_pos_right
      (show units (step - 1) + units step < 2 * units step by omega) fine_pos
    rwa [Nat.mul_assoc] at this
  have above : 2 * (units step * fine) < (units step + units (step + 1)) * fine := by
    have := Nat.mul_lt_mul_of_pos_right
      (show 2 * units step < units step + units (step + 1) by have := units_lt_succ step; omega)
      fine_pos
    rwa [Nat.mul_assoc] at this
  rw [roundsTo]
  split <;> simp only [Bool.and_eq_true, decide_eq_true_eq] <;> omega

namespace Decimal

/-- The magnitude of a decimal in units of `10^-1074`. -/
def point (decimal : Decimal) : Nat := decimal.digits * 10 ^ decimal.place

end Decimal

theorem roundsTo_onGrid? {step place : Nat} {decimal : Decimal}
    (hit : onGrid? step place = some decimal) : roundsTo step decimal.point := by
  unfold onGrid? at hit
  extract_lets exact grid floor nearest other at hit
  split at hit
  · rename_i rounds
    rw [← Option.some.inj hit]
    exact rounds
  split at hit
  · rename_i rounds
    rw [← Option.some.inj hit]
    exact rounds
  · cases hit

theorem roundsTo_coarsest {step : Nat} (positive : 0 < step) (place : Nat) :
    roundsTo step (coarsest step place).point := by
  induction place with
  | zero =>
    rw [coarsest, Decimal.point, pow_zero, Nat.mul_one]
    exact roundsTo_self positive
  | succ place ih =>
    rw [coarsest]
    cases hit : onGrid? step (place + 1) with
    | none => exact ih
    | some decimal => exact roundsTo_onGrid? hit

theorem point_injective {s t : Nat} (positiveS : 0 < s) (positiveT : 0 < t)
    (same : (shortest s).point = (shortest t).point) : s = t := by
  have roundsS := roundsTo_coarsest positiveS (topPlace s)
  have roundsT := roundsTo_coarsest positiveT (topPlace t)
  rw [← shortest, same] at roundsS
  exact roundsTo_unique roundsS roundsT

theorem point_pos {step : Nat} (positive : 0 < step) : 0 < (shortest step).point := by
  obtain ⟨low, -, -⟩ := roundsTo_bounds (roundsTo_coarsest positive (topPlace step))
  have zero_lt : units 0 < units step := units_strictMono positive
  have := Nat.mul_pos (show 0 < units (step - 1) + units step by omega) fine_pos
  rw [← shortest] at low
  omega

def readExponent : List Char → Int
  | '-' :: digits => -(Nat.ofDigitChars 10 digits 0 : Int)
  | '+' :: digits => Nat.ofDigitChars 10 digits 0
  | _ => 0

/-- The magnitude that a text without a sign spells, in units of `10^-1074`. -/
def readPoint (text : List Char) : Nat :=
  let mantissa := text.takeWhile (· != 'e')
  let digits := mantissa.filter (· != '.')
  let whole := (mantissa.takeWhile (· != '.')).length
  let exponent := readExponent ((text.dropWhile (· != 'e')).drop 1)
  Nat.ofDigitChars 10 digits 0 * 10 ^ (whole + exponent + 1074 - digits.length).toNat

def isNumberChar (c : Char) : Bool :=
  c.isDigit || c == '.' || c == 'e' || c == '+' || c == '-'

/-- The text spells a magnitude: it begins with a digit and is not the text of a whole number. -/
structure Spells (text : List Char) (point : Nat) : Prop where
  first : ∃ digit rest, text = digit :: rest ∧ digit.isDigit
  chars : ∀ c ∈ text, isNumberChar c
  marked : '.' ∈ text ∨ 'e' ∈ text
  read : readPoint text = point

def AllDigits (digits : List Char) : Prop := ∀ c ∈ digits, c.isDigit

theorem allDigits_toDigits (n : Nat) : AllDigits (Nat.toDigits 10 n) :=
  fun _ mem => Nat.isDigit_of_mem_toDigits (by decide) (by decide) mem

theorem allDigits_append {a b : List Char} (digitsA : AllDigits a) (digitsB : AllDigits b) :
    AllDigits (a ++ b) := by
  intro c mem
  rcases List.mem_append.mp mem with mem | mem
  · exact digitsA c mem
  · exact digitsB c mem

theorem allDigits_of_sublist {a b : List Char} (all : AllDigits b) (sub : a.Sublist b) :
    AllDigits a := fun c mem => all c (sub.subset mem)

theorem allDigits_zeros (n : Nat) : AllDigits (List.replicate n '0') := by
  intro c mem
  rw [List.eq_of_mem_replicate mem]
  rfl

theorem ne_of_isDigit {c : Char} (digit : c.isDigit) {other : Char} (noDigit : other.isDigit = false) :
    c ≠ other := by
  rintro rfl
  rw [noDigit] at digit
  cases digit

theorem filter_digits {digits : List Char} (all : AllDigits digits) :
    digits.filter (· != '.') = digits :=
  List.filter_eq_self.mpr fun c mem => bne_iff_ne.mpr (ne_of_isDigit (all c mem) rfl)

theorem isNumberChar_of_isDigit {c : Char} (digit : c.isDigit) : isNumberChar c := by
  simp [isNumberChar, digit]

/-- What is read off digits, perhaps a point and more digits, and perhaps an exponent. -/
theorem readPoint_parts {whole dot fraction tail : List Char} (digitsW : AllDigits whole)
    (digitsF : AllDigits fraction) (pointed : dot = ['.'] ∨ dot = [] ∧ fraction = [])
    (marked : tail = [] ∨ ∃ exponent, tail = 'e' :: exponent) :
    readPoint ((whole ++ dot ++ fraction) ++ tail) =
      Nat.ofDigitChars 10 (whole ++ fraction) 0 *
        10 ^ (readExponent (tail.drop 1) + 1074 - fraction.length).toNat := by
  have unmarked : ∀ c ∈ whole ++ dot ++ fraction, (c != 'e') = true := by
    intro c mem
    rw [bne_iff_ne]
    rw [List.mem_append, List.mem_append] at mem
    rcases mem with (mem | mem) | mem
    · exact ne_of_isDigit (digitsW c mem) rfl
    · rcases pointed with rfl | ⟨rfl, -⟩
      · rw [List.mem_singleton.mp mem]
        decide
      · cases mem
    · exact ne_of_isDigit (digitsF c mem) rfl
  have mantissa : ((whole ++ dot ++ fraction) ++ tail).takeWhile (· != 'e') =
      whole ++ dot ++ fraction := by
    rw [List.takeWhile_append_of_pos unmarked]
    rcases marked with rfl | ⟨exponent, rfl⟩ <;> simp
  have exponent : ((whole ++ dot ++ fraction) ++ tail).dropWhile (· != 'e') = tail := by
    rw [List.dropWhile_append_of_pos unmarked]
    rcases marked with rfl | ⟨exponent, rfl⟩ <;> simp
  have digits : (whole ++ dot ++ fraction).filter (· != '.') = whole ++ fraction := by
    rw [List.filter_append, List.filter_append, filter_digits digitsW, filter_digits digitsF]
    rcases pointed with rfl | ⟨rfl, -⟩ <;> simp
  have front : (whole ++ dot ++ fraction).takeWhile (· != '.') = whole := by
    rw [List.append_assoc, List.takeWhile_append_of_pos fun c mem =>
      bne_iff_ne.mpr (ne_of_isDigit (digitsW c mem) rfl)]
    rcases pointed with rfl | ⟨rfl, rfl⟩ <;> simp
  rw [readPoint, mantissa, exponent, digits, front, List.length_append]
  congr 3
  push_cast
  ring

/-- Digits with a point among them spell the digits with the point moved. -/
theorem spells_pointed {whole fraction : List Char} (digitsW : AllDigits whole)
    (some : whole ≠ []) (digitsF : AllDigits fraction) :
    Spells (whole ++ '.' :: fraction)
      (Nat.ofDigitChars 10 (whole ++ fraction) 0 * 10 ^ (1074 - fraction.length)) where
  first := by
    cases whole with
    | nil => exact absurd rfl some
    | cons digit rest => exact ⟨digit, _, rfl, digitsW digit List.mem_cons_self⟩
  chars := by
    intro c mem
    rcases List.mem_append.mp mem with mem | mem
    · exact isNumberChar_of_isDigit (digitsW c mem)
    · rcases List.mem_cons.mp mem with rfl | mem
      · rfl
      · exact isNumberChar_of_isDigit (digitsF c mem)
  marked := Or.inl (List.mem_append_right _ List.mem_cons_self)
  read := by
    have read := readPoint_parts digitsW digitsF (Or.inl rfl) (Or.inl rfl)
    rw [List.append_nil, List.append_assoc] at read
    refine read.trans ?_
    rw [List.drop_nil, show readExponent [] = 0 from rfl]
    congr 2
    omega

theorem spells_zeros_first {digits : List Char} (all : AllDigits digits) (zeros : Nat) :
    Spells (['0', '.'] ++ List.replicate zeros '0' ++ digits)
      (Nat.ofDigitChars 10 digits 0 * 10 ^ (1074 - (zeros + digits.length))) := by
  have spelled := spells_pointed (allDigits_zeros 1) (by simp)
    (allDigits_append (allDigits_zeros zeros) all)
  simp only [Nat.ofDigitChars_append, Nat.ofDigitChars_replicate_zero, Nat.mul_zero,
    List.length_append, List.length_replicate] at spelled
  simpa using spelled

theorem spells_zeros_last {digits : List Char} (all : AllDigits digits) (some : digits ≠ [])
    (zeros : Nat) :
    Spells (digits ++ List.replicate zeros '0' ++ ['.', '0'])
      (Nat.ofDigitChars 10 digits 0 * 10 ^ (zeros + 1074)) := by
  have spelled := spells_pointed (allDigits_append all (allDigits_zeros zeros))
    (List.append_ne_nil_of_left_ne_nil some _) (allDigits_zeros 1)
  have value : Nat.ofDigitChars 10 (digits ++ List.replicate zeros '0' ++ List.replicate 1 '0') 0 =
      Nat.ofDigitChars 10 digits 0 * 10 ^ (zeros + 1) := by
    simp only [Nat.ofDigitChars_append, Nat.ofDigitChars_replicate_zero]
    ring
  rw [value, Nat.mul_assoc, ← pow_add, List.length_replicate] at spelled
  exact spelled

theorem spells_parted {digits : List Char} (all : AllDigits digits) {count : Nat}
    (positive : 0 < count) (some : digits ≠ []) :
    Spells (digits.take count ++ '.' :: digits.drop count)
      (Nat.ofDigitChars 10 digits 0 * 10 ^ (1074 - (digits.length - count))) := by
  have front : digits.take count ≠ [] := by
    rw [← List.length_pos_iff] at some ⊢
    rw [List.length_take]
    omega
  have spelled := spells_pointed (allDigits_of_sublist all (List.take_sublist count digits)) front
    (allDigits_of_sublist all (List.drop_sublist count digits))
  rw [List.take_append_drop, List.length_drop] at spelled
  exact spelled

theorem spells_plain {digits : List Char} (all : AllDigits digits) (some : digits ≠ [])
    (whole : Int) :
    Spells (plain digits whole)
      (Nat.ofDigitChars 10 digits 0 * 10 ^ (whole + 1074 - digits.length).toNat) := by
  unfold plain
  split
  · have place : (whole + 1074 - digits.length).toNat =
        1074 - ((-whole).toNat + digits.length) := by omega
    rw [place]
    exact spells_zeros_first all (-whole).toNat
  · extract_lets count after
    split
    · rename_i none
      have short : digits.length ≤ count := by simpa [after] using none
      have place : (whole + 1074 - digits.length).toNat = count - digits.length + 1074 := by omega
      rw [place, List.take_of_length_le short, List.append_assoc]
      exact spells_zeros_last all some (count - digits.length)
    · rename_i long
      have long : count < digits.length := by simpa [after] using long
      have place : (whole + 1074 - digits.length).toNat = 1074 - (digits.length - count) := by omega
      have filled : count - digits.length = 0 := by omega
      rw [place, filled, List.replicate_zero, List.append_nil, List.append_assoc]
      exact spells_parted all (by omega) some

theorem readExponent_sign (exponent : Int) :
    readExponent ((if exponent < 0 then ['-'] else ['+']) ++ Nat.toDigits 10 exponent.natAbs) =
      exponent := by
  split <;> simp only [List.cons_append, List.nil_append, readExponent,
    Nat.ofDigitChars_ten_toDigits] <;> omega

theorem spells_exponent {digit : Char} {dot fraction : List Char} (isDigit : digit.isDigit)
    (digitsF : AllDigits fraction) (pointed : dot = ['.'] ∨ dot = [] ∧ fraction = [])
    (exponent : Int) :
    Spells (([digit] ++ dot ++ fraction) ++
        'e' :: ((if exponent < 0 then ['-'] else ['+']) ++ Nat.toDigits 10 exponent.natAbs))
      (Nat.ofDigitChars 10 (digit :: fraction) 0 *
        10 ^ (exponent + 1074 - fraction.length).toNat) where
  first := ⟨digit, _, rfl, isDigit⟩
  chars := by
    intro c mem
    simp only [List.mem_append, List.mem_cons, List.not_mem_nil, or_false] at mem
    rcases mem with ((rfl | mem) | mem) | rfl | mem | mem
    · exact isNumberChar_of_isDigit isDigit
    · rcases pointed with rfl | ⟨rfl, -⟩
      · rw [List.mem_singleton.mp mem]
        rfl
      · cases mem
    · exact isNumberChar_of_isDigit (digitsF c mem)
    · rfl
    · split at mem <;> (rw [List.mem_singleton.mp mem]; rfl)
    · exact isNumberChar_of_isDigit (allDigits_toDigits _ c mem)
  marked := Or.inr (List.mem_append_right _ List.mem_cons_self)
  read := by
    have digitsW : AllDigits [digit] := fun c mem => by
      rw [List.mem_singleton.mp mem]
      exact isDigit
    have read := readPoint_parts digitsW digitsF pointed
      (Or.inr ⟨(if exponent < 0 then ['-'] else ['+']) ++ Nat.toDigits 10 exponent.natAbs, rfl⟩)
    rwa [List.drop_one, List.tail_cons, readExponent_sign] at read

theorem spells_scientific {digits : List Char} (all : AllDigits digits) (some : digits ≠ [])
    (exponent : Int) :
    Spells (scientific digits exponent)
      (Nat.ofDigitChars 10 digits 0 * 10 ^ (exponent + 1 + 1074 - digits.length).toNat) := by
  unfold scientific
  extract_lets mantissa sign
  rw [List.append_assoc, List.append_assoc]
  cases digits with
  | nil => exact absurd rfl some
  | cons digit rest =>
    have isDigit := all digit List.mem_cons_self
    have digitsR : AllDigits rest := allDigits_of_sublist all (List.sublist_cons_self _ _)
    have place : exponent + 1 + 1074 - (digit :: rest).length = exponent + 1074 - rest.length := by
      rw [List.length_cons]
      omega
    rw [place]
    cases rest with
    | nil => exact spells_exponent isDigit digitsR (Or.inr ⟨rfl, rfl⟩) exponent
    | cons next rest => exact spells_exponent isDigit digitsR (Or.inl rfl) exponent

def spelledPoint (step : Nat) : Nat := if step = 0 then 0 else (shortest step).point

theorem spells_zero : Spells ['0', '.', '0'] 0 := by
  have spelled := spells_pointed (allDigits_zeros 1) (by simp) (allDigits_zeros 1)
  rw [← List.replicate_add, Nat.ofDigitChars_replicate_zero, Nat.mul_zero, Nat.zero_mul] at spelled
  exact spelled

theorem spells_decimal (decimal : Decimal) :
    let digits := Nat.toDigits 10 decimal.digits
    let exponent : Int := (decimal.place : Int) - 1074 + digits.length - 1
    Spells (plain digits (exponent + 1)) decimal.point ∧
      Spells (scientific digits exponent) decimal.point := by
  intro digits exponent
  have all : AllDigits digits := allDigits_toDigits decimal.digits
  have some : digits ≠ [] := Nat.toDigits_ne_nil
  have place : (exponent + 1 + 1074 - digits.length).toNat = decimal.place := by omega
  have point : Nat.ofDigitChars 10 digits 0 * 10 ^ decimal.place = decimal.point := by
    rw [Nat.ofDigitChars_ten_toDigits, Decimal.point]
  rw [← point, ← place]
  exact ⟨spells_plain all some _, spells_scientific all some _⟩

theorem spells_magnitudeText (step : Nat) : Spells (magnitudeText step) (spelledPoint step) := by
  unfold magnitudeText spelledPoint
  split
  · exact spells_zero
  · obtain ⟨plainly, scientifically⟩ := spells_decimal (shortest step)
    dsimp only
    split
    · exact plainly
    · exact scientifically

theorem spelledPoint_injective {s t : Nat} (same : spelledPoint s = spelledPoint t) : s = t := by
  unfold spelledPoint at same
  split at same <;> split at same
  · omega
  · have := point_pos (show 0 < t by omega)
    omega
  · have := point_pos (show 0 < s by omega)
    omega
  · exact point_injective (by omega) (by omega) same

theorem magnitudeText_injective {s t : Nat} (same : magnitudeText s = magnitudeText t) : s = t := by
  have read := (spells_magnitudeText s).read
  rw [same, (spells_magnitudeText t).read] at read
  exact (spelledPoint_injective read).symm

theorem text_positive (step : Fin steps) : (Double.mk false step).text = magnitudeText step := by
  rw [text, if_neg Bool.false_ne_true, List.nil_append]

theorem text_negative (step : Fin steps) :
    (Double.mk true step).text = '-' :: magnitudeText step := by
  rw [text, if_pos rfl, List.singleton_append]

theorem magnitudeText_ne_sign {step : Nat} {rest : List Char} : magnitudeText step ≠ '-' :: rest := by
  obtain ⟨digit, others, eq, isDigit⟩ := (spells_magnitudeText step).first
  rw [eq]
  intro same
  cases same
  cases isDigit

/-- Different doubles, zeros of different signs among them, have different texts. -/
theorem text_injective {x y : Double} (same : x.text = y.text) : x = y := by
  obtain ⟨negativeX, stepX⟩ := x
  obtain ⟨negativeY, stepY⟩ := y
  cases negativeX <;> cases negativeY
  · rw [text_positive, text_positive] at same
    exact congrArg (Double.mk false) (Fin.ext (magnitudeText_injective same))
  · rw [text_positive, text_negative] at same
    exact absurd same magnitudeText_ne_sign
  · rw [text_positive, text_negative] at same
    exact absurd same.symm magnitudeText_ne_sign
  · rw [text_negative, text_negative] at same
    exact congrArg (Double.mk true) (Fin.ext (magnitudeText_injective (List.cons.inj same).2))

end ContractTwins.Double
