/-!
# Numbers on the command line

A number is written in decimal digits; a plus sign and leading zeros are accepted. It has to
fit the type that it is read for.
-/

namespace RingRead.CommandLine

/-- The value of a decimal digit. -/
def digit? (c : Char) : Option Nat :=
  if '0' ≤ c ∧ c ≤ '9' then some (c.toNat - '0'.toNat) else none

/-- The number that digits stand for, after those already read. -/
def digitsFrom? : (value : Nat) → List Char → Option Nat
  | value, [] => some value
  | value, c :: rest => (digit? c).bind fun d => digitsFrom? (10 * value + d) rest

/-- The natural number that a text stands for, if it is at most `bound`. -/
def number? (bound : Nat) (text : String) : Option Nat :=
  let digits := match text.toList with
    | '+' :: rest => rest
    | chars => chars
  if digits.isEmpty then none else (digitsFrom? 0 digits).filter (· ≤ bound)

end RingRead.CommandLine
