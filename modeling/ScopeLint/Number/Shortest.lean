import ScopeLint.Number.Binary64

/-!
# Shortest decimals

The decimal with the fewest digits that reads back as a given binary number, the nearest one if
there are several.
-/

namespace ScopeLint

/-- The number `digits * 10 ^ exponent`. -/
structure Decimal where
  digits : Nat
  exponent : Int
  deriving DecidableEq, Repr

namespace Binary64

/-- `n * 10 ^ e` for an exponent that is not negative, and `n` otherwise. -/
def scaleTen (n : Nat) (e : Int) : Nat := n * Nat.pow 10 e.toNat

/-- Whether `c * 10 ^ g` is less than or equal to `n * 2 ^ e`. -/
def decimalLe (c : Nat) (g : Int) (n : Nat) (e : Int) : Bool :=
  scaleUp (scaleTen c g) (-e) ≤ scaleTen (scaleUp n e) (-g)

/-- Whether `n * 2 ^ e` is less than or equal to `c * 10 ^ g`. -/
def leDecimal (n : Nat) (e : Int) (c : Nat) (g : Int) : Bool :=
  scaleTen (scaleUp n e) (-g) ≤ scaleUp (scaleTen c g) (-e)

/-- The greatest `k` with `10 ^ k ≤ x`, for a positive number. -/
def floorLog10 (x : Binary64) : Int :=
  let guess := ((Nat.log2 x.mantissa : Int) + x.exponent) * 30103 / 100000
  if decimalLe 1 (guess + 1) x.mantissa x.exponent then guess + 1
  else if decimalLe 1 guess x.mantissa x.exponent then guess
  else guess - 1

/-- The greatest multiple of `10 ^ g` up to the number, as a count. -/
def floorGrid (x : Binary64) (g : Int) : Nat :=
  scaleTen (scaleUp x.mantissa x.exponent) (-g) / scaleUp (scaleTen 1 g) (-x.exponent)

/-- Whether `c * 10 ^ g` reads back as the number. In units of a quarter of its last place the
number is `4 * mantissa`; what rounds to it lies up to 2 units above, and as many below or half of
it at the least mantissa, with both ends if the mantissa is even. -/
def readsBack (x : Binary64) (c : Nat) (g : Int) : Bool :=
  let e := x.exponent - 2
  let low := 4 * x.mantissa - if x.mantissa = leadingBit ∧ -1074 < x.exponent then 1 else 2
  let high := 4 * x.mantissa + 2
  if x.mantissa % 2 = 0 then leDecimal low e c g && decimalLe c g high e
  else !decimalLe c g low e && !leDecimal high e c g

/-- The nearer of the two counts of `10 ^ g` around the number, and of two as near the even one. -/
def nearer (x : Binary64) (low : Nat) (g : Int) : Nat :=
  let middle := 2 * low + 1
  if decimalLe middle g (2 * x.mantissa) x.exponent then
    if leDecimal (2 * x.mantissa) x.exponent middle g ∧ low % 2 = 0 then low else low + 1
  else low

/-- The decimal with the fewest digits, at least `digits` and less than `digits + fuel`, that reads
back as the number with first digit at `10 ^ k`. -/
def shortestFrom (x : Binary64) (k : Int) : Nat → Nat → Decimal
  | 0, digits => ⟨x.floorGrid (k - digits), k - digits⟩
  | fuel + 1, digits =>
    let g := k + 1 - digits
    let low := x.floorGrid g
    match x.readsBack low g, x.readsBack (low + 1) g with
    | true, true => ⟨x.nearer low g, g⟩
    | true, false => ⟨low, g⟩
    | false, true => ⟨low + 1, g⟩
    | false, false => shortestFrom x k fuel (digits + 1)

/-- The shortest decimal of a positive number; 17 digits are always enough. -/
def shortest (x : Binary64) : Decimal := shortestFrom x x.floorLog10 17 1

end Binary64

end ScopeLint
