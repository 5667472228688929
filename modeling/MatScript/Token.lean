import MatScript.Number.Text

/-! The tokens of a script. -/
namespace MatScript

/-- Operators, punctuation and brackets. -/
inductive Symbol where
  | plus | minus | times | divide
  | dotPlus | dotMinus | dotTimes | dotDivide
  | equals | notEquals | greater | less | greaterEqual | lessEqual
  | assign | assignPlus | assignMinus | assignTimes | assignDivide
  | semicolon | comma | apostrophe | colon
  | roundLeft | roundRight | squareLeft | squareRight | curlyLeft | curlyRight
  deriving DecidableEq, Repr, Inhabited

namespace Symbol

def spelling : Symbol → String
  | plus => "+" | minus => "-" | times => "*" | divide => "/"
  | dotPlus => ".+" | dotMinus => ".-" | dotTimes => ".*" | dotDivide => "./"
  | equals => "==" | notEquals => "!=" | greater => ">" | less => "<"
  | greaterEqual => ">=" | lessEqual => "<="
  | assign => "=" | assignPlus => "+=" | assignMinus => "-=" | assignTimes => "*="
  | assignDivide => "/="
  | semicolon => ";" | comma => "," | apostrophe => "'" | colon => ":"
  | roundLeft => "(" | roundRight => ")" | squareLeft => "[" | squareRight => "]"
  | curlyLeft => "\x7b" | curlyRight => "\x7d"

/-- The name of the token type, as tables and messages show it. -/
def typeName : Symbol → String
  | plus => "PLUS" | minus => "MINUS" | times => "TIMES" | divide => "DIVIDE"
  | dotPlus => "DOT_PLUS" | dotMinus => "DOT_MINUS" | dotTimes => "DOT_TIMES"
  | dotDivide => "DOT_DIVIDE"
  | equals => "EQUALS" | notEquals => "NOT_EQUALS" | greater => "GREATER" | less => "LESS"
  | greaterEqual => "GREATER_EQUAL" | lessEqual => "LESS_EQUAL"
  | assign => "ASSIGN" | assignPlus => "ASSIGN_PLUS" | assignMinus => "ASSIGN_MINUS"
  | assignTimes => "ASSIGN_TIMES" | assignDivide => "ASSIGN_DIVIDE"
  | semicolon => "SEMICOLON" | comma => "COMMA" | apostrophe => "APOSTROPHE" | colon => "COLON"
  | roundLeft => "BRACKET_ROUND_L" | roundRight => "BRACKET_ROUND_R"
  | squareLeft => "BRACKET_SQUARE_L" | squareRight => "BRACKET_SQUARE_R"
  | curlyLeft => "BRACKET_CURLY_L" | curlyRight => "BRACKET_CURLY_R"

end Symbol

/-- Reserved words. -/
inductive Keyword where
  | «if» | «else» | «for» | «while» | «break» | «continue» | «return»
  | eye | zeros | ones | print | «true» | «false»
  deriving DecidableEq, Repr, Inhabited

namespace Keyword

def spelling : Keyword → String
  | «if» => "if" | «else» => "else" | «for» => "for" | «while» => "while"
  | «break» => "break" | «continue» => "continue" | «return» => "return"
  | eye => "eye" | zeros => "zeros" | ones => "ones" | print => "print"
  | «true» => "true" | «false» => "false"

def typeName : Keyword → String
  | «if» => "IF" | «else» => "ELSE" | «for» => "FOR" | «while» => "WHILE"
  | «break» => "BREAK" | «continue» => "CONTINUE" | «return» => "RETURN"
  | eye => "EYE" | zeros => "ZEROS" | ones => "ONES" | print => "PRINT"
  | «true» => "TRUE" | «false» => "FALSE"

def all : List Keyword :=
  [«if», «else», «for», «while», «break», «continue», «return», eye, zeros, ones, print,
    «true», «false»]

/-- The reserved word that a name spells. -/
def ofName? (name : String) : Option Keyword := all.find? (·.spelling = name)

end Keyword

/-- What a token says, without its place. -/
inductive Lexeme where
  | symbol (s : Symbol)
  | keyword (k : Keyword)
  | name (id : String)
  | text (value : String)
  | float (value : Float)
  | int (value : Nat)

namespace Lexeme

def typeName : Lexeme → String
  | symbol s => s.typeName
  | keyword k => k.typeName
  | name _ => "ID"
  | text _ => "STRING"
  | float _ => "FLOAT"
  | int _ => "INT"

/-- The value as messages and tables show it: a text without its quotes, a number in its
shortest form. -/
def valueText : Lexeme → String
  | symbol s => s.spelling
  | keyword k => k.spelling
  | name id => id
  | text value => value
  | float value => Number.floatText value
  | int value => toString value

end Lexeme

/-- A lexeme with its line, its column in the text, both from 1, and its offset from 0. -/
structure Token where
  lexeme : Lexeme
  line : Nat
  column : Nat
  offset : Nat

end MatScript
