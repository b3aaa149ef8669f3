import ContractTwins.Double.Basic

/-!
The shortest decimal text of a double: of the decimals that round to it, those on the coarsest
power of ten, and of these the nearest. Magnitudes are counted in units of `10^-1074` here, in
which every finite double is a whole number.
-/
namespace ContractTwins.Double

def fine : Nat := Nat.pow 5 1074

/-- Does `point`, in units of `10^-1074`, round to the step? The two ends of its range do so iff
the step is even. -/
def roundsTo (step point : Nat) : Bool :=
  let low := (units (step - 1) + units step) * fine
  let high := (units step + units (step + 1)) * fine
  if step % 2 = 0 then low ≤ 2 * point && 2 * point ≤ high
  else low < 2 * point && 2 * point < high

structure Decimal where
  digits : Nat
  place : Nat
  deriving DecidableEq

/-- The nearer of the two multiples of `10^place` around the step that rounds to it. Below a power
of two the range is half as wide as above it, so the further one can be the only hit. -/
def onGrid? (step place : Nat) : Option Decimal :=
  let exact := units step * fine
  let grid := Nat.pow 10 place
  let floor := exact / grid
  let nearest := roundDiv exact grid
  let other := if nearest = floor then floor + 1 else floor
  if roundsTo step (nearest * grid) then some ⟨nearest, place⟩
  else if roundsTo step (other * grid) then some ⟨other, place⟩
  else none

def coarsest (step : Nat) : Nat → Decimal
  | 0 => ⟨units step * fine, 0⟩
  | place + 1 => (onGrid? step (place + 1)).getD (coarsest step place)

/-- No multiple of a power of ten above this place is below the step's magnitude or near it. -/
def topPlace (step : Nat) : Nat :=
  Nat.log2 (units step) * 30103 / 100000 + 753

def shortest (step : Nat) : Decimal := coarsest step (topPlace step)

def lowestPlain : Int := -5
def highestPlain : Int := 15

/-- A point put after the first `whole` digits. Zeros fill up on both sides, and one digit at
least stands on each. -/
def plain (digits : List Char) (whole : Int) : List Char :=
  if whole ≤ 0 then
    ['0', '.'] ++ List.replicate (-whole).toNat '0' ++ digits
  else
    let count := whole.toNat
    let after := digits.drop count
    digits.take count ++ List.replicate (count - digits.length) '0' ++ ['.'] ++
      (if after.isEmpty then ['0'] else after)

def scientific (digits : List Char) (exponent : Int) : List Char :=
  let mantissa := match digits with
    | first :: next :: rest => first :: '.' :: next :: rest
    | short => short
  let sign := if exponent < 0 then ['-'] else ['+']
  mantissa ++ ['e'] ++ sign ++ Nat.toDigits 10 exponent.natAbs

def magnitudeText (step : Nat) : List Char :=
  if step = 0 then ['0', '.', '0']
  else
    let decimal := shortest step
    let digits := Nat.toDigits 10 decimal.digits
    let exponent : Int := (decimal.place : Int) - 1074 + digits.length - 1
    if lowestPlain ≤ exponent && exponent ≤ highestPlain then plain digits (exponent + 1)
    else scientific digits exponent

def text (x : Double) : List Char :=
  (if x.negative then ['-'] else []) ++ magnitudeText x.step

end ContractTwins.Double
