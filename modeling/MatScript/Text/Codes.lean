/-! Codes that set colours on a terminal: an escape, an opening bracket, parameters and a letter. -/
namespace MatScript.Text

def isParameter (c : Char) : Bool := c = ';' || c = '?' || c.isDigit

/-- Drop the codes from a text, after the reversed start of one. -/
def dropCodesFrom (start : List Char) : List Char → List Char
  | [] => start.reverse
  | c :: rest =>
    match start with
    | [] => if c = '\x1b' then dropCodesFrom [c] rest else c :: dropCodesFrom [] rest
    | [_] =>
      if c = '[' then dropCodesFrom (c :: start) rest
      else if c = '\x1b' then start ++ dropCodesFrom [c] rest
      else start ++ c :: dropCodesFrom [] rest
    | _ =>
      if isParameter c then dropCodesFrom (c :: start) rest
      else if c.isAlpha then dropCodesFrom [] rest
      else if c = '\x1b' then start.reverse ++ dropCodesFrom [c] rest
      else start.reverse ++ c :: dropCodesFrom [] rest

/-- Drop the codes from a text. -/
def dropCodes (s : String) : String := String.ofList (dropCodesFrom [] s.toList)

end MatScript.Text
