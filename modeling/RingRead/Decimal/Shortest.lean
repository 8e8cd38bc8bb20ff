import RingRead.Decimal.Binary

/-!
# The shortest decimal that reads back

Every double stands for an interval of real numbers, those that round to it. The shortest
decimal is found by trying the decimal grids from the coarsest down: the first grid that has
a point in the interval gives the fewest digits, and of two such points the nearer one is
taken, the even one in a tie. A grid has a point in the interval exactly when one of the two
neighbours of the value on that grid is one, so only those are tested.

`NumberFormat` holds what a format decides on top of the digits; `jsonNumber` is the one in
which summaries are written.
-/

namespace RingRead.Decimal

/-- The number `significand * 10 ^ exponent`. -/
structure Digits where
  significand : Nat
  exponent : Int
deriving DecidableEq, Repr

/-- The interval of numbers that round to a double, in units of a quarter of its last place:
the value itself, the two ends, and whether the ends belong to it. -/
structure Interval where
  value : Nat
  low : Nat
  high : Nat
  closed : Bool
  /-- The exponent of two of the unit. -/
  unit : Int
deriving DecidableEq, Repr

/-- The interval of a double. Below a power of two the neighbouring double is only half as
far away, except for the smallest exponent. -/
def Interval.ofBinary (b : Binary) : Interval :=
  let narrow := b.mantissa = 1 <<< Binary.fractionWidth ∧ -1074 < b.exponent
  { value := 4 * b.mantissa
    low := 4 * b.mantissa - (if narrow then 1 else 2)
    high := 4 * b.mantissa + 2
    closed := b.mantissa % 2 = 0
    unit := b.exponent - 2 }

/-- Does `point`, on the scale of the interval's ends, lie in the interval? Whether the ends
belong to it depends on the last bit of the double. -/
def Interval.has (i : Interval) (factor point : Nat) : Bool :=
  if i.closed then i.low * factor ≤ point ∧ point ≤ i.high * factor
  else i.low * factor < point ∧ point < i.high * factor

/-- The point of the grid of multiples of `10 ^ exponent` that lies in the interval, nearest
to the value, if there is one. -/
def Interval.onGrid (i : Interval) (exponent : Int) : Option Nat :=
  let factor := Nat.pow 10 (-exponent).toNat <<< i.unit.toNat
  let step := Nat.pow 10 exponent.toNat <<< (-i.unit).toNat
  let value := i.value * factor
  let below := value / step
  let above := below + 1
  match i.has factor (below * step), i.has factor (above * step) with
  | true, true =>
    let toBelow := value - below * step
    let toAbove := above * step - value
    if toBelow < toAbove ∨ (toBelow = toAbove ∧ below % 2 = 0) then some below else some above
  | true, false => some below
  | false, true => some above
  | false, false => none

/-- The first grid with a point in the interval, from `exponent` downwards. -/
def Interval.search (i : Interval) : (grids : Nat) → (exponent : Int) → Digits
  | 0, exponent => ⟨0, exponent⟩
  | grids + 1, exponent =>
    match i.onGrid exponent with
    | some significand => ⟨significand, exponent⟩
    | none => i.search grids (exponent - 1)

/-- No double reaches `10 ^ 309`, so the search starts there. -/
def coarsest : Int := 309

/-- The grids from the coarsest down to `10 ^ -1100`, finer than any double needs. -/
def gridCount : Nat := 1410

/-- The shortest decimal that reads back as the double; of those, the nearest. Zero has no
digits to look for. -/
def shortest (x : Float) : Digits :=
  let b := Binary.ofFloat x
  if b.mantissa = 0 then ⟨0, 0⟩ else (Interval.ofBinary b).search gridCount coarsest

/-- The decisions of a number format. -/
structure NumberFormat where
  /-- The smallest exponent of the leading digit that is written positionally. -/
  least : Int
  /-- The first exponent above those that are written positionally. -/
  bound : Int
  /-- What a whole number ends with. -/
  wholeEnding : String
  /-- The sign of an exponent that is not negative. -/
  plus : String
  /-- What stands for a number that is not finite. -/
  notFinite : String

/-- JSON numbers: positional from `0.00001` up to below `10 ^ 16`, whole numbers end with
`.0`, exponents always have a sign, and what is no number is `null`. -/
def jsonNumber : NumberFormat := ⟨-5, 16, ".0", "+", "null"⟩

/-- Digits as text: with an exponent if the leading digit stands too far from the point on
either side, and positionally otherwise. -/
def NumberFormat.write (n : NumberFormat) (d : Digits) : String :=
  let digits := toString d.significand
  let leading := d.exponent + (digits.length : Int) - 1
  let zeros (k : Int) := String.ofList (List.replicate k.toNat '0')
  if leading < n.least ∨ n.bound ≤ leading then
    let rest := String.ofList (digits.toList.drop 1)
    let mark := if leading < 0 then "-" else n.plus
    String.ofList (digits.toList.take 1) ++ (if rest = "" then "" else "." ++ rest) ++ "e" ++ mark
      ++ toString leading.natAbs
  else if 0 ≤ d.exponent then digits ++ zeros d.exponent ++ n.wholeEnding
  else if 0 ≤ leading then
    let whole := leading.toNat + 1
    String.ofList (digits.toList.take whole) ++ "." ++ String.ofList (digits.toList.drop whole)
  else "0." ++ zeros (-leading - 1) ++ digits

/-- A double in a number format. -/
def NumberFormat.ofFloat (n : NumberFormat) (x : Float) : String :=
  if x.isNaN ∨ x.isInf then n.notFinite
  else (if isNegative x then "-" else "") ++ n.write (shortest x)

end RingRead.Decimal
