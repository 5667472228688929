import MatScript.Token
import MatScript.Text.Digit

/-! Scanning: from a text to its tokens. At each place the first rule that fits is taken, in the
order blanks, names, texts, floats, integers, newlines, comments, symbols of two characters,
symbols of one. -/
namespace MatScript

namespace Lexeme

def isNameStart (c : Char) : Bool := c.isAlpha || c = '_'

def isNamePart (c : Char) : Bool := c.isAlphanum || c = '_'

/-- A name, or the reserved word that it spells. -/
def ofWord (cs : List Char) : Lexeme :=
  let id := String.ofList cs
  match Keyword.ofName? id with
  | some k => keyword k
  | none => name id

/-- How many characters stand before the first quote that no backslash passes over. A backslash
passes over the next character, unless that is a newline. -/
def openQuote? : List Char → Option Nat
  | [] => none
  | '"' :: _ => some 0
  | '\\' :: c :: rest =>
    if c = '\n' then (openQuote? (c :: rest)).map (· + 1)
    else (openQuote? rest).map (· + 2)
  | _ :: rest => (openQuote? rest).map (· + 1)

/-- How many characters stand before the last quote. -/
def lastQuote? : List Char → Option Nat
  | [] => none
  | c :: rest =>
    match lastQuote? rest with
    | some n => some (n + 1)
    | none => if c = '"' then some 0 else none

/-- How many characters a text literal has between its quotes: up to the first quote that no
backslash passes over, and if there is none, up to the last quote. -/
def textLength? (rest : List Char) : Option Nat :=
  match openQuote? rest with
  | some n => some n
  | none => lastQuote? rest

/-- What a text literal stands for: a backslash before a quote is left out. -/
def unescape : List Char → List Char
  | '\\' :: '"' :: rest => '"' :: unescape rest
  | c :: rest => c :: unescape rest
  | [] => []

/-- The length of an exponent at the start, zero if there is none. -/
def exponentLength (cs : List Char) : Nat :=
  match cs with
  | mark :: rest =>
    if mark = 'e' ∨ mark = 'E' then
      let (signs, digits) := match rest with
        | s :: more => if s = '-' ∨ s = '+' then (1, more) else (0, rest)
        | [] => (0, [])
      match (digits.takeWhile Text.isDigit).length with
      | 0 => 0
      | n => 1 + signs + n
    else 0
  | [] => 0

/-- The value of an exponent. -/
def exponentValue (cs : List Char) : Int :=
  match cs with
  | _ :: '-' :: digits => -(Text.digitsValue digits)
  | _ :: '+' :: digits => Text.digitsValue digits
  | _ :: digits => Text.digitsValue digits
  | [] => 0

/-- The digits before the point, those after it and the exponent of a float literal at the start.
It has a point with a digit beside it, or an exponent. -/
def floatParts? (cs : List Char) : Option (List Char × Bool × List Char × List Char) :=
  let whole := cs.takeWhile Text.isDigit
  let rest := cs.dropWhile Text.isDigit
  match rest with
  | '.' :: more =>
    let fraction := more.takeWhile Text.isDigit
    if whole = [] ∧ fraction = [] then none
    else
      let tail := more.dropWhile Text.isDigit
      some (whole, true, fraction, tail.take (exponentLength tail))
  | _ =>
    if whole = [] ∨ exponentLength rest = 0 then none
    else some (whole, false, [], rest.take (exponentLength rest))

/-- The float that a literal spells. -/
def floatValue (whole fraction exponent : List Char) : Float :=
  let digits := Text.digitsValue (whole ++ fraction)
  Number.Decimal.toFloat ⟨digits, exponentValue exponent - fraction.length⟩

/-- A symbol of two characters. -/
def symbolPair? : Char → Char → Option Symbol
  | '.', '+' => some .dotPlus
  | '.', '-' => some .dotMinus
  | '.', '*' => some .dotTimes
  | '.', '/' => some .dotDivide
  | '=', '=' => some .equals
  | '!', '=' => some .notEquals
  | '>', '=' => some .greaterEqual
  | '<', '=' => some .lessEqual
  | '+', '=' => some .assignPlus
  | '-', '=' => some .assignMinus
  | '*', '=' => some .assignTimes
  | '/', '=' => some .assignDivide
  | _, _ => none

/-- A symbol of one character. -/
def symbolSingle? : Char → Option Symbol
  | '+' => some .plus
  | '-' => some .minus
  | '*' => some .times
  | '/' => some .divide
  | '>' => some .greater
  | '<' => some .less
  | '=' => some .assign
  | ';' => some .semicolon
  | ',' => some .comma
  | '\'' => some .apostrophe
  | ':' => some .colon
  | '(' => some .roundLeft
  | ')' => some .roundRight
  | '[' => some .squareLeft
  | ']' => some .squareRight
  | '\x7b' => some .curlyLeft
  | '\x7d' => some .curlyRight
  | _ => none

end Lexeme

namespace Token

/-- What stands at the start of a text. -/
inductive Piece where
  | blank
  | newline
  | comment
  | lexeme (l : Lexeme)
  | tooLong (digits : Nat)
  | illegal

/-- The most digits an integer literal may have. -/
def maxDigits : Nat := 4300

/-- The symbol at the start, and how many characters follow its first one. -/
def symbolPiece (c : Char) (rest : List Char) : Piece × Nat :=
  match rest.head?.bind (Lexeme.symbolPair? c) with
  | some s => (.lexeme (.symbol s), 1)
  | none =>
    match Lexeme.symbolSingle? c with
    | some s => (.lexeme (.symbol s), 0)
    | none => (.illegal, 0)

/-- The number or symbol at the start, and how many characters follow its first one. -/
def numberPiece (c : Char) (rest : List Char) : Piece × Nat :=
  match Lexeme.floatParts? (c :: rest) with
  | some (whole, point, fraction, exponent) =>
    (.lexeme (.float (Lexeme.floatValue whole fraction exponent)),
      whole.length + point.toNat + fraction.length + exponent.length - 1)
  | none =>
    if Text.isDigit c then
      let digits := c :: rest.takeWhile Text.isDigit
      if maxDigits < digits.length then (.tooLong digits.length, digits.length - 1)
      else (.lexeme (.int (Text.digitsValue digits)), digits.length - 1)
    else symbolPiece c rest

/-- The piece at the start of a text, and how many characters follow its first one. -/
def piece (c : Char) (rest : List Char) : Piece × Nat :=
  if c = ' ' ∨ c = '\t' then (.blank, (rest.takeWhile fun d => d = ' ' ∨ d = '\t').length)
  else if Lexeme.isNameStart c then
    let word := rest.takeWhile Lexeme.isNamePart
    (.lexeme (.ofWord (c :: word)), word.length)
  else if c = '\n' then (.newline, (rest.takeWhile (· = '\n')).length)
  else if c = '#' then (.comment, (rest.takeWhile (· ≠ '\n')).length)
  else if c = '"' then
    match Lexeme.textLength? rest with
    | some n => (.lexeme (.text (String.ofList (Lexeme.unescape (rest.take n)))), n + 1)
    | none => (.illegal, 0)
  else numberPiece c rest

/-- A place in a text: the line, the column and the offset of the next character. -/
structure Place where
  line : Nat := 1
  column : Nat := 1
  offset : Nat := 0
  deriving DecidableEq, Repr, Inhabited

/-- The column after a run of characters: every newline starts a new one. -/
def columnAfter (column : Nat) (cs : List Char) : Nat :=
  cs.foldl (fun n c => if c = '\n' then 1 else n + 1) column

/-- The place after a piece that is spelled `cs`. Only newlines between tokens count as lines. -/
def Place.after (p : Place) (piece : Piece) (cs : List Char) : Place where
  line := match piece with
    | .newline => p.line + cs.length
    | _ => p.line
  column := columnAfter p.column cs
  offset := p.offset + cs.length

/-- How scanning ended. -/
inductive Ending where
  | finished
  | illegal (c : Char)
  | tooLong (digits : Nat)

/-- The tokens of a text, how scanning ended, and the line it had reached. -/
structure Scan where
  tokens : List Token
  ending : Ending
  line : Nat

/-- Scan a text from a place in it. -/
def scanFrom (p : Place) : List Char → Scan
  | [] => ⟨[], .finished, p.line⟩
  | c :: rest =>
    let (piece, more) := Token.piece c rest
    let next := p.after piece (c :: rest.take more)
    match piece with
    | .illegal => ⟨[], .illegal c, p.line⟩
    | .tooLong digits => ⟨[], .tooLong digits, p.line⟩
    | .lexeme l =>
      let scan := scanFrom next (rest.drop more)
      { scan with tokens := ⟨l, p.line, p.column, p.offset⟩ :: scan.tokens }
    | _ => scanFrom next (rest.drop more)
  termination_by cs => cs.length
  decreasing_by all_goals simp only [List.length_cons, List.length_drop]; omega

/-- Scan a text whose first line has the given number. -/
def scan (line : Nat) (text : String) : Scan := scanFrom ⟨line, 1, 0⟩ text.toList

end Token

end MatScript
