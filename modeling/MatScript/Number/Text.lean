import MatScript.Number.Shortest

/-! The text of a single number. -/
namespace MatScript.Number

/-- The sign and at least `width` digits of an exponent. -/
def exponentChars (width : Nat) (e : Int) : List Char :=
  let ds := Nat.toDigits 10 e.natAbs
  (if e < 0 then '-' else '+') :: List.replicate (width - ds.length) '0' ++ ds

/-- The first digit, then the others after a point, if there are any, then the exponent. -/
def scientificChars (d : Decimal) : List Char :=
  let mantissa := match d.chars with
    | c :: [] => [c]
    | c :: ds => c :: '.' :: ds
    | [] => []
  mantissa ++ 'e' :: exponentChars 2 (d.point - 1)

/-- The text of a float: its fewest digits, positional from `1e-4` up to `1e16`, and with a digit
after the point. -/
def floatText (x : Float) : String :=
  let sign := if isNegative x then ['-'] else []
  match decode? x with
  | none => if x.isNaN then "nan" else String.ofList (sign ++ ['i', 'n', 'f'])
  | some b =>
    if b.mantissa = 0 then String.ofList (sign ++ ['0', '.', '0'])
    else
      let d := b.shortest
      if -4 < d.point ∧ d.point ≤ 16 then
        let (whole, fraction) := d.parts
        String.ofList (sign ++ whole ++ '.' :: (if fraction = [] then ['0'] else fraction))
      else String.ofList (sign ++ scientificChars d)

/-- The text of a float in six digits at most, positional from `1e-4` up to `1e6`, without a bare
point. -/
def generalText (x : Float) : String :=
  let sign := if isNegative x then ['-'] else []
  match decode? x with
  | none => if x.isNaN then "nan" else String.ofList (sign ++ ['i', 'n', 'f'])
  | some b =>
    if b.mantissa = 0 then String.ofList (sign ++ ['0'])
    else
      let d := (b.significant 6).trim
      if -4 < d.point ∧ d.point ≤ 6 then
        let (whole, fraction) := d.parts
        String.ofList (sign ++ whole ++ (if fraction = [] then [] else '.' :: fraction))
      else String.ofList (sign ++ scientificChars d)

end MatScript.Number
