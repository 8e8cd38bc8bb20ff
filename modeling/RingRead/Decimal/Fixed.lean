import RingRead.Decimal.Binary

/-!
# A fixed number of decimal places

`fixed` writes a double with a given number of places. The exact binary value is rounded
once, to the nearest multiple of the last place, and a value halfway between two of them
goes to the even one.

**Rounding.** `roundHalfEven` is the whole arithmetic of it; `roundHalfEven_near` says that
the result is never more than half a unit away.
-/

namespace RingRead.Decimal

/-- The natural number nearest to `numerator / denominator`; a tie goes to the even
neighbour. -/
def roundHalfEven (numerator denominator : Nat) : Nat :=
  let quotient := numerator / denominator
  let twice := 2 * (numerator % denominator)
  if denominator < twice ∨ (denominator = twice ∧ quotient % 2 = 1) then quotient + 1 else quotient

/-- The rounded number is at most half a unit away from the quotient. -/
theorem roundHalfEven_near (numerator denominator : Nat) (h : 0 < denominator) :
    2 * (roundHalfEven numerator denominator * denominator) ≤ 2 * numerator + denominator ∧
      2 * numerator ≤ 2 * (roundHalfEven numerator denominator * denominator) + denominator := by
  have hdiv := Nat.div_add_mod' numerator denominator
  have hlt := Nat.mod_lt numerator h
  have hsucc := Nat.add_one_mul (numerator / denominator) denominator
  simp only [roundHalfEven]
  split <;> omega

/-- A natural number with a decimal point in front of its last `places` digits. At least one
digit stands before the point. -/
def pointText (places n : Nat) : String :=
  let digits := toString n
  let digits := String.ofList (List.replicate (places + 1 - digits.length) '0') ++ digits
  let whole := digits.length - places
  if places = 0 then digits
  else String.ofList (digits.toList.take whole) ++ "." ++ String.ofList (digits.toList.drop whole)

/-- A double with `places` decimal places. One that is not finite is written as a word. -/
def fixed (places : Nat) (x : Float) : String :=
  if x.isNaN then "NaN"
  else
    let sign := if isNegative x then "-" else ""
    if x.isInf then sign ++ "inf"
    else
      let b := Binary.ofFloat x
      let (up, down) := Binary.scale b.exponent
      sign ++ pointText places (roundHalfEven (b.mantissa * up * Nat.pow 10 places) down)

end RingRead.Decimal
