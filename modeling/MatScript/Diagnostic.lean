import MatScript.Script.Parse

/-! What a script is refused for: the stage that refused it, a line and a message. -/
namespace MatScript

structure Diagnostic where
  stage : String
  line : Int
  message : String
  deriving DecidableEq, Repr, Inhabited

namespace Diagnostic

def text (d : Diagnostic) : String := s!"{d.stage} error (line {d.line}): {d.message}"

/-- A character that starts no token. -/
def illegal (c : Char) (line : Nat) : Diagnostic := ⟨"Lexer", line, s!"Illegal character '{c}'"⟩

/-- A token that does not fit. -/
def unexpected (t : Token) : Diagnostic :=
  ⟨"Parser", t.line, s!"Unexpected token ({t.lexeme.typeName}, '{t.lexeme.valueText}')"⟩

/-- The end of the text has no line. -/
def unexpectedEnd : Diagnostic := ⟨"Parser", -1, "Unexpected end of input"⟩

/-- A fault that the types of a script show. -/
def typing (line : Int) (message : String) : Diagnostic := ⟨"TypeChecker", line, message⟩

/-- A fault that running a script shows. -/
def running (line : Int) (message : String) : Diagnostic := ⟨"Interpreter", line, message⟩

end Diagnostic

/-- The message for an integer literal, or a text read as an integer, with too many digits. -/
def tooManyDigits (digits : Nat) : String :=
  s!"Exceeds the limit ({Token.maxDigits} digits) for integer string conversion: value has {digits} digits; use sys.set_int_max_str_digits() to increase the limit"

end MatScript
