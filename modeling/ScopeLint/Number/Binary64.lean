/-!
# Binary floating point numbers

The numbers `m * 2 ^ e` with at most 53 bits in `m` that 64 bits can hold, without their sign, and
rounding of fractions to them. Everything is exact arithmetic on natural numbers.
-/

namespace ScopeLint

/-- The number `mantissa * 2 ^ exponent`. -/
structure Binary64 where
  mantissa : Nat
  exponent : Int
  deriving DecidableEq, Repr

namespace Binary64

def zero : Binary64 := ⟨0, 0⟩

/-- The first of 53 bits, `2 ^ 52`. -/
def leadingBit : Nat := 0x10000000000000

/-- The quotient rounded to the nearest natural number, and a half to the even one. -/
def roundDiv (n d : Nat) : Nat :=
  let q := n / d
  let r := n % d
  if d < 2 * r ∨ d = 2 * r ∧ q % 2 = 1 then q + 1 else q

/-- `n * 2 ^ e` for an exponent that is not negative, and `n` otherwise. -/
def scaleUp (n : Nat) (e : Int) : Nat := n * Nat.pow 2 e.toNat

/-- The greatest `l` with `2 ^ l ≤ n / d`, for positive `n` and `d`. -/
def floorLog2 (n d : Nat) : Int :=
  let l : Int := (Nat.log2 n : Int) - (Nat.log2 d : Int)
  if scaleUp d l ≤ scaleUp n (-l) then l else l - 1

/-- The number nearest to `n / d`, and none if that is beyond the largest one. -/
def ofRatio? (n d : Nat) : Option Binary64 :=
  if n = 0 then some zero
  else
    let e := max (floorLog2 n d - 52) (-1074)
    let m := roundDiv (scaleUp n (-e)) (scaleUp d e)
    let rounded : Binary64 := if m = 2 * leadingBit then ⟨leadingBit, e + 1⟩ else ⟨m, e⟩
    if 971 < rounded.exponent then none else some rounded

/-- The product, rounded. -/
def mul? (x y : Binary64) : Option Binary64 :=
  let e := x.exponent + y.exponent
  ofRatio? (scaleUp (x.mantissa * y.mantissa) e) (scaleUp 1 (-e))

/-- The quotient, rounded. -/
def div? (x y : Binary64) : Option Binary64 :=
  let e := x.exponent - y.exponent
  ofRatio? (scaleUp x.mantissa e) (scaleUp y.mantissa (-e))

/-- The number nearest to a power of ten. -/
def powerOfTen? (k : Nat) : Option Binary64 := ofRatio? (Nat.pow 10 k) 1

/-- The number divided by a power of ten below `10 ^ 309`. -/
def divPower (x : Binary64) (k : Nat) : Option Binary64 := do x.div? (← powerOfTen? k)

/-- Scales a number by a power of ten in steps that each round: one step by a power up to
`10 ^ 308`, and before it steps down by `10 ^ 308` as long as they are needed. Every number is zero
after three of those. -/
def scaleTen? : Nat → Binary64 → Int → Option Binary64
  | fuel, x, e =>
    if x.mantissa = 0 then some zero
    else if 308 < e then none
    else if 0 ≤ e then do x.mul? (← powerOfTen? e.toNat)
    else if -308 ≤ e then x.divPower (-e).toNat
    else
      match fuel with
      | 0 => some zero
      | fuel + 1 => do scaleTen? fuel (← x.divPower 308) (e + 308)

/-- The number read for `significand * 10 ^ e`: the significand is rounded first and the product
after it. -/
def ofDecimal? (significand : Nat) (e : Int) : Option Binary64 := do
  scaleTen? 3 (← ofRatio? significand 1) e

end Binary64

end ScopeLint
