import MatScript.Command
import MatScript.Text.Quoted
import MatScript.Text.Similarity

/-! The command line: a command's name, a file and the option for help. -/
namespace MatScript

namespace Command

def name : Command → String
  | table => "scanner"
  | parse => "parser"
  | outline => "ast"
  | check => "types"
  | run => "execute"

/-- What a command does, in the list of all commands. -/
def summary : Command → String
  | table => "Display table of tokens"
  | parse => "Run parser on given file"
  | outline => "Display AST tree"
  | check => "Performs type check"
  | run => "Executes program"

/-- What a command does, in its own help. -/
def description : Command → String
  | table => "Displays result of processing given fine by scanner in form of table of tokens"
  | parse => "Runs parser on given file and displays potential error"
  | outline => "Displays AST tree that represents parser file"
  | check => "Performs type check and displays possible errors"
  | run => "Performs parsing, scanning, type check and execution"

/-- All commands by name. -/
def all : List Command := [outline, run, parse, table, check]

def ofName? (s : String) : Option Command := all.find? (·.name = s)

/-- The most characters of a command's name. -/
def nameWidth : Nat := (all.map (·.name.length)).foldl max 0

end Command

namespace Command.Line

def programName : String := "mlang.py"

def helpOption : String := "--help"

/-- What a message is about: the program, or one of its commands. -/
abbrev Topic := Option Command

/-- The words that call the program or a command. -/
def call : Topic → String
  | none => programName
  | some c => programName ++ " " ++ c.name

def usage (topic : Topic) : String :=
  let arguments := match topic with
    | none => "[OPTIONS] COMMAND [ARGS]..."
    | some _ => "[OPTIONS] FILE"
  s!"Usage: {call topic} {arguments}\n"

def help (topic : Topic) : String :=
  let options := s!"\nOptions:\n  {helpOption}  Show this message and exit.\n"
  match topic with
  | some c => usage topic ++ "\n  " ++ c.description ++ "\n" ++ options
  | none =>
    let line (c : Command) : String :=
      "  " ++ c.name ++ String.ofList (List.replicate (nameWidth + 2 - c.name.length) ' ')
        ++ c.summary ++ "\n"
    usage topic ++ options ++ "\nCommands:\n" ++ String.join (all.map line)

/-- What can be wrong with a command line. -/
inductive Fault where
  | noOption (option : String)
  | optionWithValue (option : String)
  | noCommand (name : String)
  | missingCommand
  | missingFile
  | noFile (name : String)
  | extraArguments (arguments : List String)

def Fault.message : Fault → String
  | noOption option =>
    let hint :=
      if option.startsWith "--" ∧ Text.isSimilar helpOption option then
        s!" Did you mean {helpOption}?"
      else ""
    s!"No such option: {option}" ++ hint
  | optionWithValue option => s!"Option '{option}' does not take a value."
  | noCommand name => s!"No such command {Text.quoted name}."
  | missingCommand => "Missing command."
  | missingFile => "Missing argument 'FILE'."
  | noFile name => s!"Invalid value for 'FILE': '{name}': No such file or directory"
  | extraArguments [a] => s!"Got unexpected extra argument ({a})"
  | extraArguments as => "Got unexpected extra arguments (" ++ " ".intercalate as ++ ")"

/-- What a command line asks for. -/
inductive Request where
  | help (topic : Topic)
  | refused (topic : Topic) (f : Fault)
  /-- Run a command on a file. Further arguments are refused once the file is open. -/
  | onFile (c : Command) (file : String) (extra : List String)

/-- Whether an argument is an option: a dash and more. A lone dash is a file. -/
def isOption (a : String) : Bool := a.startsWith "-" && a ≠ "-"

/-- Read an option; the only one asks for help. An option with one dash is read as a letter. -/
def checkOption (a : String) : Except Fault Unit :=
  let word := String.ofList (a.toList.takeWhile (· ≠ '='))
  if word = helpOption then
    if a = helpOption then .ok () else .error (.optionWithValue helpOption)
  else if a.startsWith "--" then .error (.noOption word)
  else .error (.noOption (a.take 2).toString)

/-- Whether help is asked for, and the other arguments of a command, in any order up to a double
dash. -/
def split : List String → Except Fault (Bool × List String)
  | [] => .ok (false, [])
  | a :: rest =>
    if a = "--" then .ok (false, rest)
    else if isOption a then do
      checkOption a
      return (true, (← split rest).2)
    else do
      let (help, files) ← split rest
      return (help, a :: files)

/-- Read the arguments of a command. -/
def ofArguments (c : Command) (args : List String) : Request :=
  match split args with
  | .error f => .refused (some c) f
  | .ok (true, _) => .help (some c)
  | .ok (false, []) => .refused (some c) .missingFile
  | .ok (false, file :: extra) => .onFile c file extra

/-- Whether a word could be the name of a command. -/
def isName (s : String) : Bool := s.toList.head?.all fun c => c.isAlphanum || 0x80 ≤ c.toNat

/-- Find the command to read the arguments of. -/
def ofCommand : List String → Request
  | [] => .refused none .missingCommand
  | name :: args =>
    match ofName? name with
    | some c => ofArguments c args
    | none => if isName name then .refused none (.noCommand name) else .help none

/-- Read the program's own options, which stand before the command. -/
def ofOptions (help : Bool) : List String → Request
  | [] => if help then .help none else ofCommand []
  | a :: rest =>
    if a = "--" then if help then .help none else ofCommand rest
    else if isOption a then
      match checkOption a with
      | .ok () => ofOptions true rest
      | .error f => .refused none f
    else if help then .help none else ofCommand (a :: rest)

/-- Read a command line; an empty one asks for help. -/
def read (args : List String) : Request := if args.isEmpty then .help none else ofOptions false args

namespace Request

/-- The file that a request needs. -/
def file? : Request → Option String
  | onFile _ file _ => some file
  | _ => none

def refuse (topic : Topic) (f : Fault) : Report :=
  let hint := s!"Try '{call topic} {helpOption}' for help.\n\n"
  { exit := 2, err := usage topic ++ hint ++ "Error: " ++ f.message ++ "\n" }

/-- Carry out a request, given the text of the file that it needs if there is such a file. -/
def report (pick : List Ty → Nat) (fuel : Nat) (text : Option String) : Request → Report
  | help topic => { out := Line.help topic }
  | refused topic f => refuse topic f
  | onFile c file extra =>
    match text with
    | none => refuse (some c) (.noFile file)
    | some text =>
      if extra.isEmpty then c.report pick fuel text else refuse (some c) (.extraArguments extra)

end Request

end Command.Line

end MatScript
