/-!
# Doubles as exact binary numbers

A finite double is a natural number times a power of two. `Binary.ofFloat` takes the two
apart from the bits, so that everything which is written about a double is decided in exact
arithmetic.
-/

namespace RingRead.Decimal

/-- The magnitude `mantissa * 2 ^ exponent`. The sign is kept apart from it. -/
structure Binary where
  mantissa : Nat
  exponent : Int
deriving DecidableEq, Repr

namespace Binary

/-- The bits of the fraction of a double, without the hidden one. -/
def fractionWidth : Nat := 52

/-- The magnitude of a finite double. A double with exponent field zero has no hidden
bit. -/
def ofFloat (x : Float) : Binary :=
  let bits := x.toBits.toNat
  let hidden : Nat := 1 <<< fractionWidth
  let field : Nat := bits / hidden % 2048
  let fraction : Nat := bits % hidden
  if field = 0 then ⟨fraction, -1074⟩
  else ⟨fraction + hidden, (field : Int) - 1075⟩

/-- A power of two as a quotient of two natural numbers, one of which is 1. -/
def scale (exponent : Int) : Nat × Nat :=
  (1 <<< exponent.toNat, 1 <<< (-exponent).toNat)

end Binary

/-- The sign bit of a double. -/
def isNegative (x : Float) : Bool := x.toBits.toNat >>> 63 = 1

end RingRead.Decimal
