/-!
Finite double-precision numbers, held as their place on the ladder of all finite magnitudes: step
`k` is the `k`-th smallest one, zero is step 0. Every magnitude is a whole number of units of
`2^-1074`, so rounding, products and quotients are exact arithmetic on natural numbers.
-/
namespace ContractTwins

def Double.binade : Nat := Nat.pow 2 52

/-- There are 2047 binades of finite magnitudes. The first two share one spacing. -/
def Double.steps : Nat := 2047 * Double.binade

structure Double where
  negative : Bool
  step : Fin Double.steps
  deriving DecidableEq

namespace Double

/-- The magnitude of a step, in units of `2^-1074`. -/
def units (step : Nat) : Nat :=
  if step / binade = 0 then step else (binade + step % binade) * Nat.pow 2 (step / binade - 1)

def one : Nat := Nat.pow 2 1074

def roundDiv (num den : Nat) : Nat :=
  let floor := num / den
  let left := num % den
  if 2 * left < den then floor
  else if den < 2 * left then floor + 1
  else floor + floor % 2

/-- The step nearest to `num / den` units. The first 53 bits are kept, or fewer where the spacing
is one unit. A step past the last finite one may come out. -/
def nearestStep (num den : Nat) : Nat :=
  let dropped := Nat.log2 (num / den) - 52
  dropped * binade + roundDiv num (den * Nat.pow 2 dropped)

def round? (num den : Nat) : Option (Fin steps) :=
  let step := nearestStep num den
  if finite : step < steps then some ⟨step, finite⟩ else none

def zero : Fin steps := ⟨0, by decide⟩

def ofNat? (n : Nat) : Option (Fin steps) := round? (n * one) 1

def mul? (a b : Fin steps) : Option (Fin steps) := round? (units a * units b) one

def div? (a b : Fin steps) : Option (Fin steps) := round? (units a * one) (units b)

def same (a b : Double) : Bool :=
  a.step == b.step && (a.negative == b.negative || a.step.val == 0)

end Double

end ContractTwins
