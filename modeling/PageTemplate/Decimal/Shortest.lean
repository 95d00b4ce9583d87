/-! # The shortest decimal of a binary fraction

Every finite floating-point number stands for an interval of reals, those that round to it.
Of the decimals in that interval the one with the fewest digits is chosen, and of those the
one nearest to the number; when two are equally near, the one farther from zero. The search
compares exact natural numbers and never rounds.
-/

namespace PageTemplate.Decimal

/-- A finite non-negative number of double precision, `mantissa * 2 ^ exponent`. -/
structure Binary where
  mantissa : Nat
  exponent : Int
  /-- The gap to the number below is half the gap to the number above. -/
  narrowBelow : Bool

/-- The number with the given bits, its sign left aside. The bits are those of a finite one. -/
def Binary.ofBits (bits : UInt64) : Binary :=
  let biased := ((bits >>> 52) &&& 0x7FF).toNat
  let fraction := (bits &&& 0xFFFFFFFFFFFFF).toNat
  if biased = 0 then ⟨fraction, -1074, false⟩
  else ⟨Nat.pow 2 52 + fraction, (biased : Int) - 1075, fraction = 0 && biased > 1⟩

/-- The decimal number `digits * 10 ^ exponent`. -/
structure Numeral where
  digits : Nat
  exponent : Int
deriving DecidableEq, Repr

/-- Compares `a * 10 ^ i` with `n * 2 ^ j` exactly. -/
def compareScaled (a : Nat) (i : Int) (n : Nat) (j : Int) : Ordering :=
  compare (a * Nat.pow 10 i.toNat * Nat.pow 2 (-j).toNat)
    (n * Nat.pow 2 j.toNat * Nat.pow 10 (-i).toNat)

/-- The decimal lies among the reals that round to `x`, where a real halfway between two
neighbours rounds to the one with the even mantissa. -/
def Binary.readsBack (x : Binary) (d : Numeral) : Bool :=
  let low := if x.narrowBelow then 4 * x.mantissa - 1 else 4 * x.mantissa - 2
  let high := 4 * x.mantissa + 2
  let closed := x.mantissa % 2 == 0
  let toLow := compareScaled d.digits d.exponent low (x.exponent - 2)
  let toHigh := compareScaled d.digits d.exponent high (x.exponent - 2)
  (toLow == .gt || (closed && toLow == .eq)) && (toHigh == .lt || (closed && toHigh == .eq))

/-- The least `k` with `x < 10 ^ k`, for a positive `x`: an estimate from the binary
logarithm, corrected by exact comparisons. -/
def Binary.scale (x : Binary) : Int :=
  let estimate := ((Nat.log2 x.mantissa : Int) + x.exponent) * 30103 / 100000
  let candidates := (List.range 5).map fun step : Nat => estimate - 1 + (step : Int)
  (candidates.find? fun k => compareScaled 1 k x.mantissa x.exponent == .gt).getD (estimate + 4)

/-- The nearest decimal to `x` that is a multiple of `10 ^ exponent` and reads back, if one of
the two neighbours of `x` on that grid does. -/
def Binary.onGrid? (x : Binary) (exponent : Int) : Option Numeral :=
  let numerator := x.mantissa * Nat.pow 2 x.exponent.toNat * Nat.pow 10 (-exponent).toNat
  let denominator := Nat.pow 2 (-x.exponent).toNat * Nat.pow 10 exponent.toNat
  let below : Numeral := ⟨numerator / denominator, exponent⟩
  let above : Numeral := ⟨numerator / denominator + 1, exponent⟩
  match x.readsBack below, x.readsBack above with
  | true, true =>
    if 2 * (numerator % denominator) < denominator then some below else some above
  | true, false => some below
  | false, true => some above
  | false, false => none

/-- The decimal without zeros at the end of its digits. -/
def Numeral.strip : Nat → Numeral → Numeral
  | 0, d => d
  | fuel + 1, d =>
    if d.digits ≠ 0 ∧ d.digits % 10 = 0 then Numeral.strip fuel ⟨d.digits / 10, d.exponent + 1⟩
    else d

/-- The shortest decimal that reads back as `x`, for a positive `x`. Seventeen digits always
suffice; the exact value of the integer part stands behind the search. -/
def Binary.shortest (x : Binary) : Numeral :=
  let scale := x.scale
  let grids := (List.range 17).map fun step : Nat => scale - 1 - (step : Int)
  let found := grids.findSome? x.onGrid?
  (found.getD ⟨x.mantissa * Nat.pow 2 x.exponent.toNat, 0⟩).strip 400

/-- The decimal in positional notation, never with an exponent: zeros fill the places between
the digits and the point, and there is no point when there is no fraction. -/
def Numeral.positional (d : Numeral) : String :=
  let digits := Nat.toDigits 10 d.digits
  if 0 ≤ d.exponent then
    String.ofList (digits ++ List.replicate d.exponent.toNat '0')
  else
    let places := (-d.exponent).toNat
    let padded := List.replicate (places + 1 - digits.length) '0' ++ digits
    String.ofList (padded.take (padded.length - places) ++ '.' :: padded.drop (padded.length - places))

/-- The text of a floating-point number: the shortest decimal in positional notation, with a
minus sign also before zero, and words for the numbers that are not finite. -/
def text (x : Float) : String :=
  if x.isNaN then "NaN"
  else
    let bits := x.toBits
    let sign := if bits >>> 63 == 1 then "-" else ""
    if x.isInf then sign ++ "inf"
    else
      let magnitude := Binary.ofBits bits
      if magnitude.mantissa = 0 then sign ++ "0"
      else sign ++ magnitude.shortest.positional

end PageTemplate.Decimal
