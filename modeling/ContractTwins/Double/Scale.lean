import ContractTwins.Double.Basic

/-!
A magnitude times a power of ten. The power is rounded first and the product or quotient after it,
so the result may be one step away from the nearest.
-/
namespace ContractTwins.Double

def greatestPower : Nat := 308

def power (exponent : Nat) : Fin steps := (ofNat? (Nat.pow 10 exponent)).getD zero

def shrink? (step : Fin steps) : Nat → Option (Fin steps)
  | 0 => some step
  | times + 1 =>
    if step.val = 0 then some step
    else (div? step (power greatestPower)).bind fun smaller => shrink? smaller times

def scaleDown? (step : Fin steps) (exponent : Nat) : Option (Fin steps) :=
  let times := (exponent - 1) / greatestPower
  (shrink? step times).bind fun smaller => div? smaller (power (exponent - times * greatestPower))

/-- Times a power of ten. There is none beyond the finite magnitudes, and none where the power
itself is beyond them, unless the magnitude is zero. -/
def scale? (step : Fin steps) (exponent : Int) : Option (Fin steps) :=
  if exponent < 0 then scaleDown? step exponent.natAbs
  else if exponent.natAbs ≤ greatestPower then mul? step (power exponent.natAbs)
  else if step.val = 0 then some step
  else none

end ContractTwins.Double
