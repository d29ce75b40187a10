/-
  Finite double-precision numbers without their sign.

  A double is a whole number of units, the unit being the least positive double, `2 ^ -1074`.  It has
  at most 53 significant bits, so neighbouring doubles are one unit apart at first and further apart
  with each doubling.  Products and quotients are rounded to the nearest double, and a tie goes to
  the neighbour with the even last bit (`nearest`).

  Scaling by a power of ten multiplies or divides by doubles.  It therefore rounds more than once,
  and what comes out need not be the double nearest to the exact result.

  These are the numbers of the library by which settings are loaded, of which settings ask only
  whether they are zero.  Like its reader (`Json`) they are no part of the compiler, and no result
  depends on them.
-/

namespace ObjectGraph

/-- A finite double that is not negative. -/
structure Double where
  /-- How many times the least positive double it is. -/
  units : Nat
  deriving DecidableEq, Inhabited

namespace Double

/-- The units of the number one. -/
def one : Nat := Nat.pow 2 1074

/-- The units of the first number that is too large for a double. -/
def tooLarge : Nat := Nat.pow 2 2098

/-- How many units neighbouring doubles are apart from a number of units on. -/
def spacing (units : Nat) : Nat := Nat.pow 2 (units.log2 - 52)

/-- The double nearest to a ratio of units.  Half way between two doubles it is the one with the even
    last bit. -/
def nearest (num den : Nat) : Double :=
  let apart := spacing (num / den)
  let below := num / (den * apart)
  let twice := 2 * (num % (den * apart))
  let roundsUp := twice > den * apart || (twice == den * apart && below % 2 == 1)
  ⟨(if roundsUp then below + 1 else below) * apart⟩

/-- The double nearest to a whole number. -/
def ofNat (n : Nat) : Double := nearest (n * one) 1

/-- Tells zero. -/
def isZero (d : Double) : Bool := d.units == 0

/-- The product of two doubles, unless it is too large. -/
def mul? (a b : Double) : Option Double :=
  let product := nearest (a.units * b.units) one
  if product.units < tooLarge then some product else none

/-- The quotient by a double that is not less than one. -/
def div (a b : Double) : Double := nearest (a.units * one) b.units

/-! ## Powers of ten -/

/-- The exponent of the greatest power of ten that a double can hold. -/
def maxExponent : Nat := 308

/-- The double nearest to a power of ten. -/
def powerOfTen (exponent : Nat) : Double := ofNat (Nat.pow 10 exponent)

/-- The product with a power of ten, unless it is too large. -/
def scaleUp? (d : Double) (exponent : Nat) : Option Double :=
  if d.isZero then some d
  else if exponent ≤ maxExponent then d.mul? (powerOfTen exponent)
  else none

/-- The quotient by a power of ten.  One that no double holds is divided by in steps. -/
def scaleDown (d : Double) (exponent : Nat) : Double :=
  if exponent ≤ maxExponent then d.div (powerOfTen exponent)
  else if d.isZero then d
  else (d.div (powerOfTen maxExponent)).scaleDown (exponent - maxExponent)
termination_by exponent
decreasing_by simp only [maxExponent] at *; omega

/-- A whole number times a power of ten, unless it is too large. -/
def ofScaled? (n : Nat) (exponent : Int) : Option Double :=
  if exponent < 0 then some ((ofNat n).scaleDown exponent.natAbs)
  else (ofNat n).scaleUp? exponent.natAbs

end Double

end ObjectGraph
