import MatScript.Number.Binary

/-! Decimal digits of a float: the fewest that read back as the same float, and correctly rounded
ones. All arithmetic is on exact integers. -/
namespace MatScript.Number

/-- The number `digits * 10 ^ exponent`. -/
structure Decimal where
  digits : Nat
  exponent : Int

namespace Decimal

/-- Drop at most `fuel` trailing zeros. -/
def trimAux : Nat → Nat → Int → Decimal
  | 0, n, e => ⟨n, e⟩
  | fuel + 1, n, e => if n ≠ 0 ∧ n % 10 = 0 then trimAux fuel (n / 10) (e + 1) else ⟨n, e⟩

/-- The same number without trailing zeros in its digits. -/
def trim (d : Decimal) : Decimal := trimAux d.digits.log2 d.digits d.exponent

def chars (d : Decimal) : List Char := Nat.toDigits 10 d.digits

/-- The position of the point, counted from the first digit. -/
def point (d : Decimal) : Int := d.chars.length + d.exponent

/-- The float nearest to a decimal. Numbers that are certainly too large or too small are not
expanded. -/
def toFloat (d : Decimal) : Float :=
  if d.digits = 0 then 0
  else if 400 < d.point then ofRatio false (Nat.pow 2 1024) 1
  else if d.point < -400 then 0
  else
    let (n, m) := scaled 10 d.digits 1 d.exponent
    ofRatio false n m

/-- The digits before the point and those after it. -/
def parts (d : Decimal) : List Char × List Char :=
  let ds := d.chars
  if 0 ≤ d.exponent then (ds ++ List.replicate d.exponent.toNat '0', [])
  else
    let places := (-d.exponent).toNat
    if places < ds.length then ds.splitAt (ds.length - places)
    else (['0'], List.replicate (places - ds.length) '0' ++ ds)

end Decimal

/-- The least `k` with `n / d < 10 ^ k`, for a positive ratio. -/
def magnitude (n d : Nat) : Int :=
  let low : Int := ((n.log2 : Int) - d.log2 - 1) * 30103 / 100000 - 1
  let below (k : Int) : Bool := let (a, b) := scaled 10 n d (-k); a < b
  low + ((List.range 5).find? fun i : Nat => below (low + i)).getD 5

namespace Binary

/-- The nearer of the two neighbours of `b` among the multiples of `10 ^ grid` that still reads
back as `b`. Every length is counted in quarters of the last place of the mantissa: half a place
above, and below it too unless the next smaller float is nearer. -/
def onGrid? (b : Binary) (grid : Int) : Option Nat :=
  let (u, d) := scaled 2 1 1 (b.exponent - 2)
  let (u, d) := scaled 10 u d (-grid)
  let value := 4 * b.mantissa * u
  let lower := if b.mantissa = Nat.pow 2 52 ∧ -1074 < b.exponent then u else 2 * u
  let near (c : Nat) : Bool :=
    if b.mantissa % 2 = 0 then value ≤ c * d + lower && c * d ≤ value + 2 * u
    else value < c * d + lower && c * d < value + 2 * u
  let c := value / d
  match near c, near (c + 1) with
  | false, false => none
  | true, false => some c
  | false, true => some (c + 1)
  | true, true =>
    let r := value % d
    some (if 2 * r < d then c else if d < 2 * r then c + 1 else c + c % 2)

/-- The fewest digits that read back as `b`, which is not zero. Seventeen always do. -/
def shortest (b : Binary) : Decimal :=
  let (n, d) := b.ratio
  let k := magnitude n d
  let grids := (List.range 17).map fun i : Nat => k - 1 - i
  match grids.findSome? fun g => (b.onGrid? g).map (Decimal.mk · g) with
  | some r => r.trim
  | none => ⟨0, 0⟩

/-- The absolute value correctly rounded to `places` digits after the point. -/
def fixed (b : Binary) (places : Nat) : Decimal :=
  let (n, d) := b.ratio
  ⟨roundDiv (n * Nat.pow 10 places) d, -places⟩

/-- The absolute value correctly rounded to `count` digits. Rounding up may add one more. -/
def significant (b : Binary) (count : Nat) : Decimal :=
  let (n, d) := b.ratio
  let grid := magnitude n d - count
  let (n, d) := scaled 10 n d (-grid)
  ⟨roundDiv n d, grid⟩

end Binary

end MatScript.Number
