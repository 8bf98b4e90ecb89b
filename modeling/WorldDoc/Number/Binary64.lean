/-!
# Binary floating point numbers of 64 bits

A number is the sixty-four bits of its interchange format: a sign, eleven bits of exponent and
fifty-two bits of fraction. Rounding works on exact integers. A magnitude is first counted in units
of the least positive number, 2^-1074; the leading bit of that count decides how many of its low
bits do not fit, and the count is rounded to a multiple of that power of two, a tie going to the
even multiple. Because the bits of a positive number are its exponent above its fraction, the
rounded multiple is added to the exponent and a carry out of the fraction needs no treatment of its
own; whatever reaches the bits of infinity is infinity.
-/

namespace WorldDoc

/-- A binary floating point number, as its bits. -/
structure Binary64 where
  bits : UInt64
  deriving DecidableEq, Repr

namespace Binary64

/-- The bits of positive infinity. -/
def infinityBits : Nat := 0x7ff <<< 52

/-- The quotient of two natural numbers rounded to the nearest integer, a tie to the even one. -/
def roundDiv (n d : Nat) : Nat :=
  let q := n / d
  let twice := 2 * (n % d)
  if twice < d then q else if d < twice then q + 1 else q + q % 2

/-- The bits of the number nearest to `n / d`. -/
def magnitudeBits (n d : Nat) : Nat :=
  let scaled := n <<< 1074
  let excess := Nat.log2 (scaled / d) - 52
  min infinityBits ((excess <<< 52) + roundDiv scaled (d <<< excess))

/-- A number from its sign and the bits of its magnitude. -/
def ofSignMagnitude (negative : Bool) (magnitude : Nat) : Binary64 :=
  ⟨UInt64.ofNat (if negative then (1 <<< 63) + magnitude else magnitude)⟩

/-- The number nearest to `±(mantissa * 10 ^ exponent)`, where the mantissa has at most `digits`
decimal digits. Beyond 10^400 every number is infinite and below 10^-400 zero, so powers of ten
larger than that are never formed. -/
def ofDecimal (negative : Bool) (mantissa digits : Nat) (exponent : Int) : Binary64 :=
  ofSignMagnitude negative <|
    if mantissa = 0 then 0
    else if 400 ≤ exponent then infinityBits
    else if exponent + digits ≤ -400 then 0
    else if 0 ≤ exponent then magnitudeBits (mantissa * Nat.pow 10 exponent.toNat) 1
    else magnitudeBits mantissa (Nat.pow 10 (-exponent).toNat)

/-- The bits without the sign. -/
def magnitude (x : Binary64) : Nat := x.bits.toNat % (1 <<< 63)

/-- Whether the bits stand for no number. -/
def isNaN (x : Binary64) : Bool := infinityBits < x.magnitude

/-- Equality of numbers: the two zeros are equal, and what is no number equals nothing. -/
def same (x y : Binary64) : Bool :=
  !x.isNaN && !y.isNaN && (x == y || (x.magnitude == 0 && y.magnitude == 0))

end Binary64

end WorldDoc
