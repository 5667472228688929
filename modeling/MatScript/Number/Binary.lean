/-! Binary floating-point numbers as exact integers, and the nearest float of an exact ratio. -/
namespace MatScript.Number

/-- The quotient rounded to the nearest integer, a half going to the even neighbour. -/
def roundDiv (n d : Nat) : Nat :=
  let q := n / d
  let r := n % d
  if 2 * r < d then q else if d < 2 * r then q + 1 else q + q % 2

/-- `n / d` scaled by a power of `base`, as a ratio. -/
def scaled (base n d : Nat) (e : Int) : Nat × Nat :=
  if 0 ≤ e then (n * Nat.pow base e.toNat, d) else (n, d * Nat.pow base (-e).toNat)

/-- The bits of positive infinity, which follow those of the largest finite float. -/
def infinityBits : Nat := 0x7ff0000000000000

/-- The bits of the float nearest to `n / d`. A mantissa `q` with exponent `e` has the bits
`(e + 1074) * 2 ^ 52 + q`, also when `q` is below `2 ^ 52` or has been rounded up to `2 ^ 53`. -/
def nearestBits (n d : Nat) : Nat :=
  if n = 0 then 0 else
    let k : Int := (n.log2 : Int) - d.log2
    let (m, c) := scaled 2 n d (-k)
    let e := max (if c ≤ m then k - 52 else k - 53) (-1074)
    let (m, c) := scaled 2 n d (-e)
    min ((e + 1074).toNat * Nat.pow 2 52 + roundDiv m c) infinityBits

/-- The float nearest to `n / d` with the given sign; a ratio out of range gives an infinity. -/
def ofRatio (negative : Bool) (n d : Nat) : Float :=
  Float.ofBits (.ofNat (nearestBits n d + if negative then Nat.pow 2 63 else 0))

/-- The finite float `± mantissa * 2 ^ exponent`. -/
structure Binary where
  negative : Bool
  mantissa : Nat
  exponent : Int

/-- Infinities and undefined results have no exact value. -/
def decode? (x : Float) : Option Binary :=
  let bits := x.toBits.toNat
  let negative := decide (Nat.pow 2 63 ≤ bits)
  let e : Nat := bits / Nat.pow 2 52 % Nat.pow 2 11
  let f : Nat := bits % Nat.pow 2 52
  if e = 2047 then none
  else if e = 0 then some ⟨negative, f, -1074⟩
  else some ⟨negative, f + Nat.pow 2 52, (e : Int) - 1075⟩

/-- The sign bit, which an undefined result and a zero have too. -/
def isNegative (x : Float) : Bool := decide (Nat.pow 2 63 ≤ x.toBits.toNat)

namespace Binary

/-- The absolute value as a ratio. -/
def ratio (b : Binary) : Nat × Nat := scaled 2 b.mantissa 1 b.exponent

/-- The integer part, toward zero. -/
def truncate (b : Binary) : Int :=
  let (n, d) := b.ratio
  if b.negative then -(n / d : Nat) else (n / d : Nat)

end Binary

/-- The float nearest to an integer, unless that is out of range. -/
def ofInt? (n : Int) : Option Float :=
  if nearestBits n.natAbs 1 = infinityBits then none else some (ofRatio (n < 0) n.natAbs 1)

/-- The float nearest to a quotient of integers, unless that is out of range. A zero quotient
keeps the sign of the signs. -/
def divInt? (a b : Int) : Option Float :=
  if nearestBits a.natAbs b.natAbs = infinityBits then none
  else some (ofRatio (decide (a < 0) != decide (b < 0)) a.natAbs b.natAbs)

/-- The exact order of an integer and a float; an undefined float has none. -/
def compareInt? (n : Int) (x : Float) : Option Ordering :=
  match decode? x with
  | some b =>
    let (m, d) := b.ratio
    some (compare (n * d) (if b.negative then -(m : Int) else m))
  | none => if x.isNaN then none else if x < 0 then some .gt else some .lt

end MatScript.Number
