import MatScript.Number.Shortest
import MatScript.Text.Blank
import MatScript.Text.Digit

/-! Numbers read from a text. Blanks around a number and single underscores between its digits are
passed over. -/
namespace MatScript.Number

/-- Every underscore stands between two digits. -/
def underscoresFit : List Char → Bool
  | [] => true
  | '_' :: _ => false
  | [_] => true
  | _ :: '_' :: rest => rest.head?.any Text.isDigit && underscoresFit rest
  | _ :: rest => underscoresFit rest

/-- The digits of a run with single underscores between them, and what follows it. -/
def readDigits (cs : List Char) : List Char × List Char :=
  let inRun (c : Char) : Bool := Text.isDigit c || c = '_'
  let run := cs.takeWhile inRun
  if underscoresFit run then (run.filter Text.isDigit, cs.dropWhile inRun) else ([], cs)

/-- A sign and what follows it. -/
def readSign : List Char → Bool × List Char
  | '-' :: rest => (true, rest)
  | '+' :: rest => (false, rest)
  | cs => (false, cs)

/-- The integer that a text spells. -/
def readInt? (s : String) : Option Int :=
  let (negative, cs) := readSign (Text.trim s.toList)
  match readDigits cs with
  | ([], _) => none
  | (ds, []) =>
    let n : Int := Text.digitsValue ds
    some (if negative then -n else n)
  | _ => none

/-- An exponent that ends the text; zero if there is none. -/
def readExponent? : List Char → Option Int
  | [] => some 0
  | mark :: rest =>
    if mark = 'e' ∨ mark = 'E' then
      let (negative, cs) := readSign rest
      match readDigits cs with
      | ([], _) => none
      | (ds, []) =>
        let n : Int := Text.digitsValue ds
        some (if negative then -n else n)
      | _ => none
    else none

/-- The float that a text spells, without its sign. -/
def readUnsigned? (cs : List Char) : Option Float :=
  let word := cs.map Char.toLower
  if word = "inf".toList ∨ word = "infinity".toList then some (ofRatio false (Nat.pow 2 1024) 1)
  else if word = "nan".toList then some (Float.ofBits 0x7ff8000000000000)
  else
    let (whole, rest) := readDigits cs
    let (fraction, rest) := match rest with
      | '.' :: more => readDigits more
      | _ => ([], rest)
    if whole = [] ∧ fraction = [] then none
    else (readExponent? rest).map fun e =>
      Decimal.toFloat ⟨Text.digitsValue (whole ++ fraction), e - fraction.length⟩

/-- The float that a text spells, by digits or by name. -/
def readFloat? (s : String) : Option Float :=
  let (negative, cs) := readSign (Text.trim s.toList)
  (readUnsigned? cs).map fun x => if negative then -x else x

end MatScript.Number
